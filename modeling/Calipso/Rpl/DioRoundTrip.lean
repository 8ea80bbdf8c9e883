import Calipso.Rpl.Message

/-!
# A DIO comes out as it was put in

The option loop is followed option by option along the payload of `dio_output`.
-/

namespace Calipso.Rpl

open Wire Net

variable {m : Memory UInt8} {bufferLength i : Nat} {dio dio' : Dio}

/-! ### The option loop -/

theorem value_dioOptions_of_le (h : bufferLength ≤ i) :
    (dioOptions m bufferLength i dio).value = some dio := by
  rw [dioOptions, if_neg (by omega), Log.value_pure]

/-- A complete option that is accepted is taken over. -/
theorem value_dioOptions_step {len : Nat} (hlen : optionLen m i = len)
    (hend : i + len ≤ bufferLength) (hoption : (dioOption m i len dio).value = some dio') :
    (dioOptions m bufferLength i dio).value = (dioOptions m bufferLength (i + len) dio').value := by
  have hpos := optionLen_pos m i
  rw [dioOptions, if_pos (by omega), hlen, Log.value_bind, Log.value_ite, if_neg (by omega),
    Log.value_bind, hoption]

/-! ### The options -/

/-- The header of an option that is not a single byte. -/
theorem optionLen_of_window {n : Nat} (len : Nat) {kind : UInt8} {body : List UInt8}
    (h : window m i n = kind :: len.toUInt8 :: body) (hkind : kind ≠ optionPad1)
    (hlen : len < 256) : m i = kind ∧ optionLen m i = 2 + len := by
  have hk : m i = kind := by simpa using apply_of_window h (i := 0) rfl
  have hl : m (i + 1) = len.toUInt8 := apply_of_window h (i := 1) rfl
  refine ⟨hk, ?_⟩
  rw [optionLen, hk, if_neg hkind, hl]
  simp [hlen]

/-- The configuration of the DAG is taken over. -/
def withConf (s : DioSource) (dio : Dio) : Dio :=
  { dio with
    dagIntdoubl := s.dioIntdoubl
    dagIntmin := s.dioIntmin
    dagRedund := s.dioRedundancy
    dagMaxRankinc := s.maxRankinc
    dagMinHoprankinc := s.minHoprankinc
    ocp := s.of.ocp
    defaultLifetime := s.defaultLifetime
    lifetimeUnit := s.lifetimeUnit }

theorem value_dioOption_dagConf {s : DioSource} (dio : Dio)
    (h : window m i 16 = dioDagConfOption s) :
    optionLen m i = 16 ∧ (dioOption m i 16 dio).value = some (withConf s dio) := by
  obtain ⟨hkind, hlen⟩ := optionLen_of_window 14 h (by decide) (by decide)
  have hmax : be16At m (i + 6) = s.maxRankinc := be16At_of_window
    (window_of_append [optionDagConf, 14, 0, s.dioIntdoubl, s.dioIntmin, s.dioRedundancy]
      (be16 s.minHoprankinc ++ be16 s.of.ocp ++ [0, s.defaultLifetime] ++ be16 s.lifetimeUnit) h
      (by simp [dioDagConfOption]) rfl rfl)
  have hmin : be16At m (i + 8) = s.minHoprankinc := be16At_of_window
    (window_of_append ([optionDagConf, 14, 0, s.dioIntdoubl, s.dioIntmin, s.dioRedundancy] ++
      be16 s.maxRankinc) (be16 s.of.ocp ++ [0, s.defaultLifetime] ++ be16 s.lifetimeUnit) h
      (by simp [dioDagConfOption]) rfl rfl)
  have hocp : be16At m (i + 10) = s.of.ocp := be16At_of_window
    (window_of_append ([optionDagConf, 14, 0, s.dioIntdoubl, s.dioIntmin, s.dioRedundancy] ++
      be16 s.maxRankinc ++ be16 s.minHoprankinc) ([0, s.defaultLifetime] ++ be16 s.lifetimeUnit) h
      (by simp [dioDagConfOption]) rfl rfl)
  have hunit : be16At m (i + 14) = s.lifetimeUnit := be16At_of_window
    (window_of_append ([optionDagConf, 14, 0, s.dioIntdoubl, s.dioIntmin, s.dioRedundancy] ++
      be16 s.maxRankinc ++ be16 s.minHoprankinc ++ be16 s.of.ocp ++ [0, s.defaultLifetime]) [] h
      (by simp [dioDagConfOption]) rfl rfl)
  have hdoubl : m (i + 3) = s.dioIntdoubl := apply_of_window h (i := 3) rfl
  have hintmin : m (i + 4) = s.dioIntmin := apply_of_window h (i := 4) rfl
  have hredund : m (i + 5) = s.dioRedundancy := apply_of_window h (i := 5) rfl
  have hlifetime : m (i + 13) = s.defaultLifetime := apply_of_window h (i := 13) rfl
  refine ⟨hlen, ?_⟩
  simp only [dioOption, hkind, dioDagConf, hmax, hmin, hocp, hunit, hdoubl, hintmin, hredund,
    hlifetime]
  rfl

/-- The prefix information option is taken over. -/
theorem value_dioOption_prefixInfo {p : Prefix} (dio : Dio) (hp : 0 < p.length)
    (h : window m i 32 = dioPrefixOption p) :
    optionLen m i = 32 ∧ (dioOption m i 32 dio).value = some { dio with prefixInfo := p } := by
  rw [dioPrefixOption, if_pos hp] at h
  obtain ⟨hkind, hlen⟩ := optionLen_of_window 30 h (by decide) (by decide)
  have hlifetime : be32At m (i + 8) = p.lifetime := be32At_of_window
    (window_of_append ([optionPrefixInfo, 30, p.length, p.flags] ++ be32 p.lifetime)
      (List.replicate 4 0 ++ p.addr.toList) h (by simp) rfl rfl)
  have haddr : vectorAt m (i + 16) 16 = p.addr := vectorAt_of_window
    (window_of_append ([optionPrefixInfo, 30, p.length, p.flags] ++ be32 p.lifetime ++
      be32 p.lifetime ++ List.replicate 4 0) [] h (by simp) rfl (by simp))
  have hlength : m (i + 2) = p.length := apply_of_window h (i := 2) rfl
  have hflags : m (i + 3) = p.flags := apply_of_window h (i := 3) rfl
  refine ⟨hlen, ?_⟩
  simp only [dioOption, hkind, dioPrefixInfo, hlifetime, haddr, hlength, hflags]
  rfl

/-- A metric container with the constants that the objective function puts into it. -/
structure MetricContainer.IsSent (mc : MetricContainer) : Prop where
  flags : mc.flags = 8
  aggr : mc.aggr = 0
  prec : mc.prec = 0
  length : mc.length = 2
  obj : (mc.type = DagMc.type .etx ∧ ∃ v, mc.obj = .etx v) ∨
    (mc.type = DagMc.type .energy ∧ ∃ flags energyEst, mc.obj = .energy flags energyEst)

theorem value_dioOption_mc {mc : MetricContainer} {l : List UInt8} (dio : Dio) (hmc : mc.IsSent)
    (hl : dioMcOption mc = some l) (h : window m i 8 = l) :
    optionLen m i = 8 ∧ (dioOption m i 8 dio).value = some { dio with mc := mc } := by
  have hshift : (8 : UInt8) >>> 1 = 4 := by decide
  have hbit : ((8 : UInt8) &&& 1) <<< 7 = 0 := by decide
  obtain ⟨type, flags, aggr, prec, length, obj⟩ := mc
  obtain ⟨rfl, rfl, rfl, rfl, ⟨rfl, v, rfl⟩ | ⟨rfl, flags, energyEst, rfl⟩⟩ := hmc
  · have hbytes : l = [optionDagMetricContainer, 6, 7, 4, 0, 2] ++ be16 v := by
      simpa [dioMcOption, DagMc.type, hshift, hbit] using hl.symm
    rw [hbytes] at h
    obtain ⟨hkind, hlen⟩ := optionLen_of_window 6 h (by decide) (by decide)
    have hetx : be16At m (i + 6) = v := be16At_of_window
      (window_of_append [optionDagMetricContainer, 6, 7, 4, 0, 2] [] h (by simp) rfl rfl)
    have htype : m (i + 2) = 7 := apply_of_window h (i := 2) rfl
    have hflags : m (i + 3) = 4 := apply_of_window h (i := 3) rfl
    have hbits : m (i + 4) = 0 := apply_of_window h (i := 4) rfl
    have hlength : m (i + 5) = 2 := apply_of_window h (i := 5) rfl
    refine ⟨hlen, ?_⟩
    simp only [dioOption, hkind, dioMetricContainer, hetx, htype, hflags, hbits, hlength]
    rfl
  · have hbytes : l = [optionDagMetricContainer, 6, 2, 4, 0, 2] ++ [flags, energyEst] := by
      simpa [dioMcOption, DagMc.type, hshift, hbit] using hl.symm
    rw [hbytes] at h
    obtain ⟨hkind, hlen⟩ := optionLen_of_window 6 h (by decide) (by decide)
    have hobj : m (i + 6) = flags := apply_of_window h (i := 6) rfl
    have hest : m (i + 7) = energyEst := apply_of_window h (i := 7) rfl
    have htype : m (i + 2) = 2 := apply_of_window h (i := 2) rfl
    have hflags : m (i + 3) = 4 := apply_of_window h (i := 3) rfl
    have hbits : m (i + 4) = 0 := apply_of_window h (i := 4) rfl
    have hlength : m (i + 5) = 2 := apply_of_window h (i := 5) rfl
    refine ⟨hlen, ?_⟩
    simp only [dioOption, hkind, dioMetricContainer, hobj, hest, htype, hflags, hbits, hlength]
    rfl

/-! ### The whole payload -/

/-- The parsed DIO has the fields of the sender; the flag is compared as a truth value, and a
prefix that is absent has length 0. -/
structure Conveys (s : DioSource) (mc : MetricContainer) (dio : Dio) : Prop where
  instanceId : dio.instanceId = s.instanceId
  version : dio.version = s.version
  rank : dio.rank = s.rank
  grounded : dio.grounded ≠ 0 ↔ s.grounded ≠ 0
  mop : dio.mop = s.mop
  preference : dio.preference = s.preference
  dtsn : dio.dtsn = s.dtsnOut
  dagId : dio.dagId = s.dagId
  mc : dio.mc = mc
  dagIntdoubl : dio.dagIntdoubl = s.dioIntdoubl
  dagIntmin : dio.dagIntmin = s.dioIntmin
  dagRedund : dio.dagRedund = s.dioRedundancy
  dagMaxRankinc : dio.dagMaxRankinc = s.maxRankinc
  dagMinHoprankinc : dio.dagMinHoprankinc = s.minHoprankinc
  ocp : dio.ocp = s.of.ocp
  defaultLifetime : dio.defaultLifetime = s.defaultLifetime
  lifetimeUnit : dio.lifetimeUnit = s.lifetimeUnit
  prefixInfo : if s.prefixInfo.length = 0 then dio.prefixInfo.length = 0
    else dio.prefixInfo = s.prefixInfo

/-- The bits of the flag, the mode of operation and the preference do not overlap. -/
theorem base_bits (grounded : UInt8) {mop preference : UInt8} (hmop : mop < 8) (hpref : preference < 8) :
    let b := (if grounded ≠ 0 then (0x80 : UInt8) else 0) ||| mop <<< 3 ||| preference &&& 0x07
    b &&& 0x80 = (if grounded ≠ 0 then 0x80 else 0) ∧ (b &&& 0x3c) >>> 3 = mop ∧
      b &&& 0x07 = preference := by
  have hall : ∀ (flag : Bool) (x y : Fin 8),
      let b := (if flag then (0x80 : UInt8) else 0) ||| UInt8.ofNat x <<< 3 |||
        UInt8.ofNat y &&& 0x07
      b &&& 0x80 = (if flag then 0x80 else 0) ∧ (b &&& 0x3c) >>> 3 = UInt8.ofNat x ∧
        b &&& 0x07 = UInt8.ofNat y := by
    decide
  have h := hall (grounded ≠ 0) ⟨mop.toNat, hmop⟩ ⟨preference.toNat, hpref⟩
  simpa using h

/-- The object is of the kind that is compiled in. -/
def DagMc.Has : DagMc → MetricObject → Prop
  | .energy, .energy _ _ => True
  | .etx, .etx _ => True
  | _, _ => False

/-- The container of a sender is empty, or of the kind that is compiled in; as long as the node
has not joined, the objective function leaves the rest of it as it was. -/
structure HasContainer (dagMc : DagMc) (s : DioSource) : Prop where
  empty : s.of = .of0 ∨ dagMc = .none → s.mc = MetricContainer.zero
  kind : s.of = .mrhof → dagMc ≠ .none → s.mc.type = dagMc.type
  stale : s.joined = false → dagMc ≠ .none → s.mc.length = 2 ∧ dagMc.Has s.mc.obj

theorem isSent_updateMetricContainer {dagMc : DagMc} {s : DioSource} (h : HasContainer dagMc s)
    (htype : s.mc.type ≠ DagMc.type .none) : (updateMetricContainer dagMc s).IsSent := by
  have hkind : ¬ (s.of = .of0 ∨ dagMc = .none) := by
    intro hempty
    rw [h.empty hempty] at htype
    exact htype rfl
  obtain ⟨hof, hmc⟩ := not_or.mp hkind
  have hmrhof : s.of = .mrhof := by
    cases hs : s.of with
    | of0 => exact absurd hs hof
    | mrhof => rfl
  have hstale (hjoined : s.joined = false) := h.stale hjoined hmc
  unfold updateMetricContainer
  rw [hmrhof]
  cases dagMc with
  | none => exact absurd rfl hmc
  | energy =>
    cases hjoined : s.joined with
    | true => exact ⟨rfl, rfl, rfl, rfl, .inr ⟨rfl, _, _, rfl⟩⟩
    | false =>
      obtain ⟨hlength, hobj⟩ := hstale hjoined
      cases hs : s.mc.obj with
      | etx v => simp [hs, DagMc.Has] at hobj
      | energy flags energyEst => exact ⟨rfl, rfl, rfl, hlength, .inr ⟨rfl, flags, energyEst, hs⟩⟩
  | etx =>
    cases hjoined : s.joined with
    | true => exact ⟨rfl, rfl, rfl, rfl, .inl ⟨rfl, _, rfl⟩⟩
    | false =>
      obtain ⟨hlength, hobj⟩ := hstale hjoined
      cases hs : s.mc.obj with
      | etx v => exact ⟨rfl, rfl, rfl, hlength, .inl ⟨rfl, v, hs⟩⟩
      | energy flags energyEst => simp [hs, DagMc.Has] at hobj

/-- The fields in front of the options are taken over. -/
def withBase (rplOf : ObjectiveFunction) (s : DioSource) : Dio :=
  { Dio.default rplOf with
    instanceId := s.instanceId
    version := s.version
    rank := s.rank
    grounded := if s.grounded ≠ 0 then 0x80 else 0
    mop := s.mop
    preference := s.preference
    dtsn := s.dtsnOut
    dagId := s.dagId }

theorem value_dioInput_base {rplOf : ObjectiveFunction} {s : DioSource} {len : Nat}
    {rest : List UInt8} (h : window m 0 len = dioBase s ++ rest) (hlen : len < 256) :
    (dioInput rplOf true m len).value = (dioOptions m len 24 (withBase rplOf s)).value := by
  have hrank : be16At m 2 = s.rank := be16At_of_window
    (window_of_append [s.instanceId, s.version] _ h (by simp [dioBase]; rfl) rfl rfl)
  have hdagId : vectorAt m 8 16 = s.dagId := vectorAt_of_window
    (window_of_append ([s.instanceId, s.version] ++ be16 s.rank ++
      [(if s.grounded ≠ 0 then (0x80 : UInt8) else 0) ||| s.mop <<< 3 ||| s.preference &&& 0x07,
        s.dtsnOut, 0, 0]) rest h (by simp [dioBase]) rfl (by simp))
  have hid : m 0 = s.instanceId := apply_of_window h (i := 0) rfl
  have hversion : m 1 = s.version := apply_of_window h (i := 1) rfl
  have hbits : m 4 = (if s.grounded ≠ 0 then (0x80 : UInt8) else 0) ||| s.mop <<< 3 |||
    s.preference &&& 0x07 := apply_of_window h (i := 4) rfl
  have hdtsn : m 5 = s.dtsnOut := apply_of_window h (i := 5) rfl
  have hlen' : len % 256 = len := Nat.mod_eq_of_lt hlen
  obtain ⟨hgrounded, hmop, hpref⟩ := base_bits s.grounded s.mop_lt s.preference_lt
  simp only [dioInput, if_true, Log.value_bind, hid, hversion, hrank, hdagId, hbits, hdtsn, hlen',
    hgrounded, hmop, hpref]
  rfl

/-- The options that stand in every DIO. -/
theorem value_dioOptions_rest {s : DioSource} {len : Nat}
    (h : window m i (16 + (dioPrefixOption s.prefixInfo).length) =
      dioDagConfOption s ++ dioPrefixOption s.prefixInfo)
    (hlen : i + (16 + (dioPrefixOption s.prefixInfo).length) = len) :
    (dioOptions m len i dio).value = some (if 0 < s.prefixInfo.length then
      { withConf s dio with prefixInfo := s.prefixInfo } else withConf s dio) := by
  have hfirst : window m i 16 = dioDagConfOption s := window_of_append [] _ h rfl (by simp) rfl
  obtain ⟨hoption, hconf⟩ := value_dioOption_dagConf dio hfirst
  rw [value_dioOptions_step hoption (by omega) hconf]
  by_cases hp : 0 < s.prefixInfo.length
  · have hsize : (dioPrefixOption s.prefixInfo).length = 32 := by
      simp [dioPrefixOption, hp]
    rw [hsize] at h hlen
    obtain ⟨hoption', hprefix⟩ := value_dioOption_prefixInfo (i := i + 16)
      (withConf s dio) hp (window_of_append (dioDagConfOption s) [] h (by simp) rfl hsize)
    rw [value_dioOptions_step hoption' (by omega) hprefix, value_dioOptions_of_le (by omega),
      if_pos hp]
  · have hsize : (dioPrefixOption s.prefixInfo).length = 0 := by
      simp [dioPrefixOption, hp]
    rw [value_dioOptions_of_le (by omega), if_neg hp]

theorem conveys_withConf {rplOf : ObjectiveFunction} {s : DioSource} {mc : MetricContainer} :
    Conveys s mc (if 0 < s.prefixInfo.length then
      { withConf s { withBase rplOf s with mc := mc } with prefixInfo := s.prefixInfo }
      else withConf s { withBase rplOf s with mc := mc }) := by
  by_cases hp : 0 < s.prefixInfo.length
  · have hne : s.prefixInfo.length ≠ 0 := by
      intro h
      rw [h] at hp
      exact absurd hp (by decide)
    rw [if_pos hp]
    refine ⟨rfl, rfl, rfl, ?_, rfl, rfl, rfl, rfl, rfl, rfl, rfl, rfl, rfl, rfl, rfl, rfl, rfl, ?_⟩
    · simp [withConf, withBase]
    · rw [if_neg hne]
  · have hzero : s.prefixInfo.length = 0 := by
      rw [← UInt8.toNat_inj]
      have hle : ¬ (0 : UInt8).toNat < s.prefixInfo.length.toNat := hp
      simpa using hle
    rw [if_neg hp]
    refine ⟨rfl, rfl, rfl, ?_, rfl, rfl, rfl, rfl, rfl, rfl, rfl, rfl, rfl, rfl, rfl, rfl, rfl, ?_⟩
    · simp [withConf, withBase]
    · rw [if_pos hzero]
      rfl

@[simp] theorem length_dioBase (s : DioSource) : (dioBase s).length = 24 := by
  simp [dioBase]

@[simp] theorem length_dioDagConfOption (s : DioSource) : (dioDagConfOption s).length = 16 := rfl

theorem length_dioPrefixOption_le (p : Prefix) : (dioPrefixOption p).length ≤ 32 := by
  rw [dioPrefixOption]
  split <;> simp

/-- The option of a container that is sent has eight bytes. -/
theorem dioMcOption_of_isSent {mc : MetricContainer} (hmc : mc.IsSent) :
    ∃ l, dioMcOption mc = some l ∧ l.length = 8 := by
  obtain ⟨htype, v, hobj⟩ | ⟨htype, flags, energyEst, hobj⟩ := hmc.obj
  · rw [dioMcOption, if_pos htype, hobj]
    exact ⟨_, rfl, rfl⟩
  · have hetx : mc.type ≠ DagMc.type .etx := by
      rw [htype]
      decide
    rw [dioMcOption, if_neg hetx, if_pos htype, hobj]
    exact ⟨_, rfl, rfl⟩

theorem value_dioInput_noContainer {rplOf : ObjectiveFunction} {s : DioSource} {len : Nat}
    (h : window m 0 len = dioBase s ++ (dioDagConfOption s ++ dioPrefixOption s.prefixInfo)) :
    ∃ dio, (dioInput rplOf true m len).value = some dio ∧ Conveys s MetricContainer.zero dio := by
  have hprefix := length_dioPrefixOption_le s.prefixInfo
  have hlen : len = 24 + (16 + (dioPrefixOption s.prefixInfo).length) := by
    simpa using congrArg List.length h
  have hrest : window m (24 : Nat) (16 + (dioPrefixOption s.prefixInfo).length) =
      dioDagConfOption s ++ dioPrefixOption s.prefixInfo :=
    window_of_append (dioBase s) [] h (by simp) (by simp) (by simp)
  rw [value_dioInput_base h (by omega), value_dioOptions_rest hrest hlen.symm]
  exact ⟨_, rfl, conveys_withConf⟩

theorem value_dioInput_container {rplOf : ObjectiveFunction} {s : DioSource} {len : Nat}
    {mc : MetricContainer} {l : List UInt8} (hmc : mc.IsSent) (hl : dioMcOption mc = some l)
    (hsize : l.length = 8)
    (h : window m 0 len =
      dioBase s ++ (l ++ (dioDagConfOption s ++ dioPrefixOption s.prefixInfo))) :
    ∃ dio, (dioInput rplOf true m len).value = some dio ∧ Conveys s mc dio := by
  have hprefix := length_dioPrefixOption_le s.prefixInfo
  have hlen : len = 24 + (8 + (16 + (dioPrefixOption s.prefixInfo).length)) := by
    simpa [hsize] using congrArg List.length h
  have hfirst : window m (24 : Nat) 8 = l :=
    window_of_append (dioBase s) _ h rfl (by simp) hsize
  have hrest : window m (32 : Nat) (16 + (dioPrefixOption s.prefixInfo).length) =
      dioDagConfOption s ++ dioPrefixOption s.prefixInfo :=
    window_of_append (dioBase s ++ l) [] h (by simp) (by simp [hsize]) (by simp)
  obtain ⟨hoption, hvalue⟩ := value_dioOption_mc (withBase rplOf s) hmc hl hfirst
  rw [value_dioInput_base h (by omega), value_dioOptions_step hoption (by omega) hvalue,
    value_dioOptions_rest hrest (by omega)]
  exact ⟨_, rfl, conveys_withConf⟩

/-- A router that has joined and announces its path metric and a prefix. -/
def announcing : DioSource where
  instanceId := 0x1e
  version := 240
  rank := 512
  grounded := 1
  mop := 2
  preference := 3
  dtsnOut := 255
  dagId := Vector.replicate 16 7
  mc := ⟨7, 8, 0, 0, 2, .etx 100⟩
  dioIntdoubl := 8
  dioIntmin := 12
  dioRedundancy := 10
  maxRankinc := 1792
  minHoprankinc := 256
  of := .mrhof
  defaultLifetime := 255
  lifetimeUnit := 65535
  prefixInfo := ⟨Vector.replicate 16 9, 1000, 64, 64⟩
  joined := true
  preferredParent := some ⟨256, 640, ⟨7, 8, 0, 0, 2, .etx 0⟩⟩
  mop_lt := by decide
  preference_lt := by decide

end Calipso.Rpl
