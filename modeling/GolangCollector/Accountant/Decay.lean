import GolangCollector.Accountant.Settings

/-! # Ticks compose

A tick moves a priority towards the usage by a factor that depends on the time passed, and clamps
the result; the purge rule looks at the value before the clamp (`accountant/priority.go`). While
the usage stays the same, a tick in between changes nothing: once a value has gone below the least
priority, the usage is below it too, so that no later value comes up again. -/

namespace GolangCollector.Accountant

open GoStrings Negotiator Store Option

/-! ## Moving towards a value -/

variable {K : Type} [Field K]

def mix (p u aging : K) : K := p * aging + u * (1 - aging)

theorem mix_mix (p u a b : K) : mix (mix p u a) u b = mix p u (a * b) := by
  rw [mix, mix, mix]
  ring

variable [LinearOrder K] {p u a b : K}

theorem clampPriority_of_le (h : minPriority ≤ p) : clampPriority p = p :=
  if_neg (not_lt.mpr h)

theorem clampPriority_of_lt (h : p < minPriority) : clampPriority p = minPriority := if_pos h

section Mix

variable [IsStrictOrderedRing K]

theorem lt_of_mix_lt {m : K} (hp : m ≤ p) (ha : 0 < a) (ha1 : a < 1) (h : mix p u a < m) :
    u < m := by
  by_contra hu
  have hle : m * a + m * (1 - a) ≤ mix p u a := by
    rw [mix]
    exact add_le_add (mul_le_mul_of_nonneg_right hp ha.le)
      (mul_le_mul_of_nonneg_right (not_lt.mp hu) (sub_nonneg.mpr ha1.le))
  have hm : m * a + m * (1 - a) = m := by ring
  exact absurd (hm ▸ hle) (not_le.mpr h)

theorem mix_lt {m : K} (hp : p ≤ m) (hu : u < m) (ha : 0 < a) (ha1 : a < 1) : mix p u a < m := by
  have hm : m = m * a + m * (1 - a) := by ring
  rw [hm, mix]
  exact add_lt_add_of_le_of_lt (mul_le_mul_of_nonneg_right hp ha.le)
    (mul_lt_mul_of_pos_right hu (sub_pos.mpr ha1))

theorem clampPriority_mix_eq_iff (hp : minPriority ≤ p) (ha : 0 < a) (ha1 : a < 1) :
    clampPriority (mix p u a) = p ↔ clampPriority u = p := by
  rcases lt_or_ge (mix p u a) minPriority with hlt | hge
  · have hu := lt_of_mix_lt hp ha ha1 hlt
    rw [clampPriority_of_lt hlt, clampPriority_of_lt hu]
  · rw [clampPriority_of_le hge]
    have hfix : mix p u a = p ↔ u = p := by
      constructor
      · intro h
        have hzero : (u - p) * (1 - a) = 0 := by
          rw [mix] at h
          linear_combination h
        exact sub_eq_zero.mp ((mul_eq_zero.mp hzero).resolve_right (sub_pos.mpr ha1).ne')
      · rintro rfl
        rw [mix]
        ring
    rw [hfix]
    rcases lt_or_ge u minPriority with hu | hu
    · -- the usage is below, so the priority cannot have been at the least one
      rw [clampPriority_of_lt hu]
      constructor
      · rintro rfl
        exact absurd hp (not_le.mpr hu)
      · rintro rfl
        exact absurd hge (not_le.mpr (mix_lt le_rfl hu ha ha1))
    · rw [clampPriority_of_le hu]

theorem mix_clampPriority_lt_iff (hp : minPriority ≤ p) (ha : 0 < a) (ha1 : a < 1) (hb : 0 < b)
    (hb1 : b < 1) :
    mix (clampPriority (mix p u a)) u b < minPriority ↔ mix p u (a * b) < minPriority := by
  rcases lt_or_ge (mix p u a) minPriority with hlt | hge
  · have hu := lt_of_mix_lt hp ha ha1 hlt
    rw [clampPriority_of_lt hlt, ← mix_mix]
    exact iff_of_true (mix_lt le_rfl hu hb hb1) (mix_lt hlt.le hu hb hb1)
  · rw [clampPriority_of_le hge, mix_mix]

theorem clampPriority_mix_clampPriority (hp : minPriority ≤ p) (ha : 0 < a) (ha1 : a < 1)
    (hb : 0 < b) (hb1 : b < 1) :
    clampPriority (mix (clampPriority (mix p u a)) u b) = clampPriority (mix p u (a * b)) := by
  rcases lt_or_ge (mix p u a) minPriority with hlt | hge
  · have hu := lt_of_mix_lt hp ha ha1 hlt
    rw [clampPriority_of_lt hlt, ← mix_mix, clampPriority_of_lt (mix_lt le_rfl hu hb hb1),
      clampPriority_of_lt (mix_lt hlt.le hu hb hb1)]
  · rw [clampPriority_of_le hge, mix_mix]

end Mix

/-! ## Two ticks of a record -/

variable {lib : Library K}

/-- **The powers of one half**, in units of the half-life. -/
structure Library.Decays (lib : Library K) (halfLife : K) : Prop where
  pos : ∀ t : ℤ, 0 < t → 0 < lib.halfPow (t / halfLife)
  lt_one : ∀ t : ℤ, 0 < t → lib.halfPow (t / halfLife) < 1
  add : ∀ t t' : ℤ, 0 < t → 0 < t' →
    lib.halfPow (((t + t' : ℤ) : K) / halfLife) =
      lib.halfPow (t / halfLife) * lib.halfPow (t' / halfLife)

namespace Record

structure NoneUncharged (lib : Library K) (r : Record K) : Prop where
  time : r.intOf lib.truncate .unchargedTime = 0
  weighted : r.floatOf .weightedUnchargedTime = 0

def steadyUsage (r : Record K) : K :=
  match (r.getFloat .hierWeightedResourcesUsed).filter fun hier => 0 < hier with
  | some hier => hier
  | none => r.floatOf .weightedResourcesUsed

variable {r r' r'' : Record K} {T T' : ℤ} {t t' a b : K}

theorem newPriority_eq_mix (h : r.NoneUncharged lib) (t a : K) :
    r.newPriority t a = mix r.realPriority r.steadyUsage a := by
  rw [newPriority, mix, weightedRecentUsage, h.weighted, zero_div, add_zero]
  rfl

omit [LinearOrder K] in
theorem newAccum_of_noneUncharged (h : r.NoneUncharged lib) (t : K) :
    r.newAccum lib t =
      r.floatOf .accumulatedUsage + (r.intOf lib.truncate .resourcesUsed : K) * t := by
  rw [newAccum, h.time, Int.cast_zero, add_zero]

omit [LinearOrder K] in
theorem newWeightedAccum_of_noneUncharged (h : r.NoneUncharged lib) (t : K) :
    r.newWeightedAccum t = r.weightedAccum + r.floatOf .weightedResourcesUsed * t := by
  rw [newWeightedAccum, h.weighted, add_zero]

theorem minPriority_le_realPriority (r : Record K) : minPriority ≤ r.realPriority :=
  minPriority_le_clampPriority _

section Tick

variable (h : r.tick lib T t a = some r')

include h

theorem noneUncharged_tick : r'.NoneUncharged lib :=
  ⟨(uncharged_tick h).1, (uncharged_tick h).2⟩

theorem steadyUsage_tick : r'.steadyUsage = r.steadyUsage := by
  simp only [steadyUsage, floatOf, getFloat]
  rw [attr?_tick_of_notMem h (by simp [ticked]), attr?_tick_of_notMem h (by simp [ticked])]

theorem priorityFactor_tick : r'.getFloat .priorityFactor = r.getFloat .priorityFactor := by
  rw [getFloat, attr?_tick_of_notMem h (by simp [ticked]), getFloat]

theorem realPriority_tick : r'.realPriority = clampPriority (r.newPriority t a) := by
  rw [realPriority, floatOf, getFloat, attr?_tick_priority h]
  split
  · next hsame => rw [hsame, realPriority, floatOf, getFloat]
  · exact clampPriority_of_le (minPriority_le_clampPriority _)

end Tick

structure Idle (lib : Library K) (r : Record K) : Prop where
  used : r.intOf lib.truncate .resourcesUsed = 0
  accumulated : r.floatOf .accumulatedUsage = 0
  factor : r.getFloat .priorityFactor = none

theorem purged_iff (h : r.NoneUncharged lib) (t a : K) :
    r.purged lib t a = true ↔
      mix r.realPriority r.steadyUsage a < minPriority ∧ r.Idle lib := by
  rw [purged, newPriority_eq_mix h, newAccum_of_noneUncharged h]
  simp only [Bool.and_eq_true, decide_eq_true_eq, beq_iff_eq, isNone_iff_eq_none]
  constructor
  · rintro ⟨⟨⟨hlow, hused⟩, haccum⟩, hfactor⟩
    rw [hused, Int.cast_zero, zero_mul, add_zero] at haccum
    exact ⟨hlow, hused, haccum, hfactor⟩
  · rintro ⟨hlow, hused, haccum, hfactor⟩
    refine ⟨⟨⟨hlow, hused⟩, ?_⟩, hfactor⟩
    rw [hused, haccum, Int.cast_zero, zero_mul, add_zero]

theorem idle_tick_iff (h0 : r.NoneUncharged lib) (h : r.tick lib T t a = some r') :
    r'.Idle lib ↔ r.Idle lib := by
  have hused := used_tick h
  have haccum := accumulated_tick h
  rw [newAccum_of_noneUncharged h0] at haccum
  have hsame : r.intOf lib.truncate .resourcesUsed = 0 →
      r'.floatOf .accumulatedUsage = r.floatOf .accumulatedUsage := fun hzero => by
    rw [haccum, hzero, Int.cast_zero, zero_mul, add_zero]
  constructor
  · rintro ⟨hused', haccum', hfactor'⟩
    rw [hused] at hused'
    exact ⟨hused', hsame hused' ▸ haccum', priorityFactor_tick h ▸ hfactor'⟩
  · rintro ⟨hused', haccum', hfactor'⟩
    exact ⟨hused.trans hused', (hsame hused').trans haccum', (priorityFactor_tick h).trans hfactor'⟩

theorem written_twice {α : Type} [DecidableEq α] {x : Option α} {old mid new : α}
    (h : new = old → mid = old) :
    (if new = mid then (if mid = old then x else some mid) else some new) =
      if new = old then x else some new := by
  by_cases hmid : new = mid
  · rw [if_pos hmid, hmid]
  · have hold : new ≠ old := fun hnew => hmid (hnew.trans (h hnew).symm)
    rw [if_neg hmid, if_neg hold]

theorem getFloat_of_written {attr : Attr} {old new : K}
    (h : r'.attr? attr = if new = old then r.attr? attr else some (.float new)) :
    r'.getFloat attr = if new = old then r.getFloat attr else some new := by
  rw [getFloat, h]
  split
  · rfl
  · rfl

variable [IsStrictOrderedRing K]

section Twice

variable (h0 : r.NoneUncharged lib) (ht : 0 < t) (ht' : 0 < t') (ha : 0 < a) (ha1 : a < 1)
  (hb : 0 < b) (hb1 : b < 1)

include h0 ha ha1 hb hb1

theorem isSome_tick_tick :
    ((r.tick lib T t a).bind fun r' => r'.tick lib T' t' b).isSome =
      (r.tick lib T' (t + t') (a * b)).isSome := by
  have hp := r.minPriority_le_realPriority
  have hiff : ∀ {r : Record K} {T : ℤ} {t a : K},
      (r.tick lib T t a).isSome = !r.purged lib t a := by
    intro r T t a
    rw [tick]
    cases r.purged lib t a <;> rfl
  rw [hiff]
  cases htick : r.tick lib T t a with
  | none =>
    obtain ⟨hlow, hidle⟩ := (purged_iff h0 t a).mp (purged_of_none htick)
    have hpurged : r.purged lib (t + t') (a * b) = true := by
      refine (purged_iff h0 _ _).mpr ⟨?_, hidle⟩
      rw [← mix_mix]
      exact mix_lt hlow.le (lt_of_mix_lt hp ha ha1 hlow) hb hb1
    rw [hpurged]
    rfl
  | some r' =>
    rw [bind_some, hiff]
    congr 1
    rw [Bool.eq_iff_iff, purged_iff (noneUncharged_tick htick), purged_iff h0,
      idle_tick_iff h0 htick, steadyUsage_tick htick, realPriority_tick htick,
      newPriority_eq_mix h0, mix_clampPriority_lt_iff hp ha ha1 hb hb1]

variable (h : r.tick lib T t a = some r') (h' : r'.tick lib T' t' b = some r'') {r₁ : Record K}
  (h₁ : r.tick lib T' (t + t') (a * b) = some r₁)

include h h' h₁

theorem priority_tick_tick : r''.getFloat .priority = r₁.getFloat .priority := by
  have hp := r.minPriority_le_realPriority
  have hab : a * b < 1 := mul_lt_one_of_nonneg_of_lt_one_left ha.le ha1 hb1.le
  have hstep := getFloat_of_written (attr?_tick_priority h')
  rw [getFloat_of_written (attr?_tick_priority h), newPriority_eq_mix (noneUncharged_tick h),
    steadyUsage_tick h, realPriority_tick h, newPriority_eq_mix h0,
    clampPriority_mix_clampPriority hp ha ha1 hb hb1] at hstep
  rw [hstep, getFloat_of_written (attr?_tick_priority h₁), newPriority_eq_mix h0]
  refine written_twice fun hsame => ?_
  rw [clampPriority_mix_eq_iff hp (mul_pos ha hb) hab] at hsame
  exact (clampPriority_mix_eq_iff hp ha ha1).mpr hsame

omit ha ha1 hb hb1 in
include ht ht' in
theorem accumulated_tick_tick :
    r''.getFloat .accumulatedUsage = r₁.getFloat .accumulatedUsage := by
  have hstep := getFloat_of_written (attr?_tick_accumulated h')
  rw [getFloat_of_written (attr?_tick_accumulated h), newAccum_of_noneUncharged
    (noneUncharged_tick h), used_tick h, accumulated_tick h, newAccum_of_noneUncharged h0,
    add_assoc, ← mul_add] at hstep
  rw [hstep, getFloat_of_written (attr?_tick_accumulated h₁), newAccum_of_noneUncharged h0]
  refine written_twice fun hsame => ?_
  rw [add_eq_left, mul_eq_zero] at hsame ⊢
  exact Or.inl (hsame.resolve_right (add_pos ht ht').ne')

omit ha ha1 hb hb1 in
include ht ht' in
theorem weightedAccumulated_tick_tick :
    r''.getFloat .weightedAccumulatedUsage = r₁.getFloat .weightedAccumulatedUsage := by
  have hstep := getFloat_of_written (attr?_tick_weightedAccumulated h')
  rw [getFloat_of_written (attr?_tick_weightedAccumulated h), newWeightedAccum_of_noneUncharged
    (noneUncharged_tick h), weightedUsed_tick h, newWeightedAccum_of_noneUncharged h0] at hstep
  rw [hstep, getFloat_of_written (attr?_tick_weightedAccumulated h₁),
    newWeightedAccum_of_noneUncharged h0]
  by_cases hzero : r.floatOf .weightedResourcesUsed = 0
  · -- nothing is written, whatever stands in for the weighted usage
    simp only [hzero, zero_mul, add_zero, if_true]
  · have hmid : r'.weightedAccum = r.weightedAccum + r.floatOf .weightedResourcesUsed * t := by
      rw [← newWeightedAccum_of_noneUncharged h0]
      refine weightedAccum_tick h fun hsame => ?_
      rw [newWeightedAccum_of_noneUncharged h0, add_eq_left, mul_eq_zero] at hsame
      exact absurd (hsame.resolve_right ht.ne') hzero
    rw [hmid, add_assoc, ← mul_add]
    refine written_twice fun hsame => ?_
    rw [add_eq_left, mul_eq_zero] at hsame ⊢
    exact Or.inl (hsame.resolve_right (add_pos ht ht').ne')

end Twice

end Record

/-! ## Two ticks of the store -/

variable [IsStrictOrderedRing K] {a : Accountant K} {c : Text}

/-- **A tick in between changes nothing** while no time is waiting to be charged. -/
theorem decay_independent_of_granularity {t₁ t₂ : ℤ} (hdecay : lib.Decays a.cfg.halfLife)
    (h₁ : a.lastUpdate < t₁) (h₂ : t₁ < t₂)
    (hzero : ∀ r, a.store.record? .customer c = some r → r.NoneUncharged lib) :
    (∀ attr ∈ [Attr.priority, .accumulatedUsage, .weightedAccumulatedUsage],
      ((a.updatePriorities lib t₁).updatePriorities lib t₂).store.getFloat .customer c attr =
        (a.updatePriorities lib t₂).store.getFloat .customer c attr) ∧
    (((a.updatePriorities lib t₁).updatePriorities lib t₂).store.record? .customer c).isSome =
      ((a.updatePriorities lib t₂).store.record? .customer c).isSome := by
  have htwo := record?_updatePriorities lib (a := a.updatePriorities lib t₁) (T := t₂)
    (by rwa [updatePriorities_lastUpdate]) c
  rw [updatePriorities_lastUpdate, updatePriorities_cfg, record?_updatePriorities lib h₁] at htwo
  have hone := record?_updatePriorities lib (h₁.trans h₂) c
  have hsum : t₂ - a.lastUpdate = (t₁ - a.lastUpdate) + (t₂ - t₁) := by ring
  have hd₁ : 0 < t₁ - a.lastUpdate := sub_pos.mpr h₁
  have hd₂ : 0 < t₂ - t₁ := sub_pos.mpr h₂
  rw [hsum, hdecay.add _ _ hd₁ hd₂, Int.cast_add] at hone
  have ha := hdecay.pos _ hd₁
  have ha1 := hdecay.lt_one _ hd₁
  have hb := hdecay.pos _ hd₂
  have hb1 := hdecay.lt_one _ hd₂
  generalize lib.halfPow (((t₁ - a.lastUpdate : ℤ) : K) / a.cfg.halfLife) = x at *
  generalize lib.halfPow (((t₂ - t₁ : ℤ) : K) / a.cfg.halfLife) = y at *
  have ht : (0 : K) < ((t₁ - a.lastUpdate : ℤ) : K) := Int.cast_pos.mpr hd₁
  have ht' : (0 : K) < ((t₂ - t₁ : ℤ) : K) := Int.cast_pos.mpr hd₂
  generalize ((t₁ - a.lastUpdate : ℤ) : K) = d at *
  generalize ((t₂ - t₁ : ℤ) : K) = d' at *
  cases hrec : a.store.record? .customer c with
  | none =>
    rw [hrec] at htwo hone
    have hsame := htwo.trans hone.symm
    refine ⟨fun attr _ => ?_, by rw [hsame]⟩
    rw [getFloat, attr?, hsame, getFloat, attr?]
  | some r =>
    have h0 := hzero r hrec
    rw [hrec, bind_some] at htwo hone
    have hsome : ((r.tick lib t₁ d x).bind fun r' => r'.tick lib t₂ d' y).isSome =
        (r.tick lib t₂ (d + d') (x * y)).isSome :=
      Record.isSome_tick_tick h0 ha ha1 hb hb1
    rw [htwo, hone]
    refine ⟨fun attr hattr => ?_, hsome⟩
    rw [getFloat, attr?, htwo, getFloat, attr?, hone]
    cases h₁ : r.tick lib t₂ (d + d') (x * y) with
    | none =>
      rw [h₁, isSome_none, isSome_eq_false_iff, isNone_iff_eq_none] at hsome
      rw [hsome]
    | some r₁ =>
      rw [h₁] at hsome
      obtain ⟨r'', htwice⟩ := isSome_iff_exists.mp hsome
      obtain ⟨r', h, h'⟩ := bind_eq_some_iff.mp htwice
      rw [htwice]
      simp only [List.mem_cons, List.not_mem_nil, or_false] at hattr
      rcases hattr with rfl | rfl | rfl
      · exact Record.priority_tick_tick h0 ha ha1 hb hb1 h h' h₁
      · exact Record.accumulated_tick_tick h0 ht ht' h h' h₁
      · exact Record.weightedAccumulated_tick_tick h0 ht ht' h h' h₁

def halvingLibrary : Library ℚ := { literalLibrary with halfPow := fun x => (1 / 2) ^ x.num.toNat }

theorem decays_halvingLibrary : halvingLibrary.Decays 1 where
  pos t _ := by
    simp only [halvingLibrary]
    positivity
  lt_one t ht := by
    simp only [halvingLibrary, div_one, Rat.num_intCast]
    exact pow_lt_one₀ (by norm_num) (by norm_num) (by omega)
  add t t' ht ht' := by
    simp only [halvingLibrary, div_one, Rat.num_intCast]
    rw [Int.toNat_add ht.le ht'.le, pow_add]

def halving : Accountant ℚ :=
  (new halvingLibrary { plainConfig with halfLife := 1 } .empty).perform halvingLibrary
    (.setPriority "u@d" 8)

theorem decay_independent_of_granularity_halving :
    (halving.updatePriorities halvingLibrary 2).store.getFloat .customer "u@d" .priority =
      some 2 ∧
    ((halving.updatePriorities halvingLibrary 2).updatePriorities halvingLibrary 3).store.getFloat
        .customer "u@d" .priority =
      (halving.updatePriorities halvingLibrary 3).store.getFloat .customer "u@d"
        .priority := by
  have hdecay : halvingLibrary.Decays halving.cfg.halfLife := by
    have hhalf : halving.cfg.halfLife = 1 := by decide +kernel
    rw [hhalf]
    exact decays_halvingLibrary
  have hstart : halving.lastUpdate < 2 := by decide +kernel
  have hzero : ∀ r, halving.store.record? .customer "u@d" = some r →
      r.NoneUncharged halvingLibrary := by
    intro r hr
    have htime : halving.store.intOf halvingLibrary.truncate "u@d" .unchargedTime = 0 := by
      decide +kernel
    have hweighted : halving.store.floatOf "u@d" .weightedUnchargedTime = 0 := by
      decide +kernel
    exact ⟨intOf_of_some _ _ hr ▸ htime, floatOf_of_some _ hr ▸ hweighted⟩
  refine ⟨by decide +kernel, ?_⟩
  exact (decay_independent_of_granularity hdecay hstart (by decide) hzero).1 .priority (by decide)

end GolangCollector.Accountant
