import RondOS.Lib.NearestDivision
import RondOS.Lib.Pit8254
import RondOS.Lib.RustWord

/-!
# Programming the interval timer

`pit_configure_channel` turns a frequency into a count for the 8254 and writes it. In the middle of
the range the count is the nearest divisor of the clock. The cut-off at the upper end compares the
frequency with the clock, although the rounded quotient is one long before.
-/

namespace RondOS.Pit

open ByteMemory RustWord NearestDivision Pit8254

set_option autoImplicit false

def pitPortControl : BitVec 16 := 0x43
def pitPortCounterOffsetToChannel : BitVec 16 := 0x40

def pitHz : BitVec 32 := 1193180

def pitCount (prof : Profile) (frequency : BitVec 32) : Option (BitVec 16) :=
  if frequency < 19 then some 0
  else if pitHz < frequency then some 2
  else do
    let quotient := (← prof.add pitHz (frequency / 2)) / frequency
    some (quotient.setWidth 16)

def controlWord (channel mode : BitVec 16) : Byte :=
  (channel <<< 6 ||| 0x30 ||| mode <<< 1).setWidth 8

/-- The port writes of a call, in order. -/
def pitConfigureChannel (prof : Profile) (channel mode : BitVec 16) (frequency : BitVec 32) :
    Option (List (BitVec 16 × Byte)) :=
  if (channel = 0 ∨ channel = 2) ∧ (mode = 2 ∨ mode = 3) then do
    let count ← pitCount prof frequency
    let port ← prof.add pitPortCounterOffsetToChannel channel
    some [(pitPortControl, controlWord channel mode), (port, count.setWidth 8),
      (port, (count >>> 8).setWidth 8)]
  else none

def configured (prof : Profile) (channel mode : BitVec 16) (frequency : BitVec 32)
    (timer : Timer) : Option Timer :=
  (pitConfigureChannel prof channel mode frequency).map timer.outAll

def countFor (frequency : Nat) : Nat :=
  if frequency < 19 then 0
  else if 1193180 < frequency then 2
  else nearestDiv 1193180 frequency

theorem nearest_count_lt {frequency : Nat} (lower : 19 ≤ frequency) :
    nearestDiv 1193180 frequency < 65536 := by
  have shrinks : nearestDiv 1193180 frequency ≤ nearestDiv 1193180 19 :=
    nearest_div_antitone (by decide) lower
  have largest : nearestDiv 1193180 19 < 65536 := by decide
  exact Nat.lt_of_le_of_lt shrinks largest

theorem count_for_lt (frequency : Nat) : countFor frequency < 65536 := by
  unfold countFor
  split_ifs with low high
  · decide
  · decide
  · exact nearest_count_lt (Nat.not_lt.mp low)

theorem pit_count_eq (prof : Profile) (frequency : BitVec 32) :
    pitCount prof frequency = some (BitVec.ofNat 16 (countFor frequency.toNat)) := by
  have half : (frequency / 2).toNat = frequency.toNat / 2 := BitVec.toNat_udiv
  have clock : pitHz.toNat = 1193180 := rfl
  by_cases low : frequency.toNat < 19
  · have guard : frequency < 19 := BitVec.lt_def.mpr low
    rw [pitCount, if_pos guard, countFor, if_pos low]
    rfl
  · have lowGuard : ¬frequency < 19 := fun below => low (BitVec.lt_def.mp below)
    by_cases high : 1193180 < frequency.toNat
    · have guard : pitHz < frequency := BitVec.lt_def.mpr high
      rw [pitCount, if_neg lowGuard, if_pos guard, countFor, if_neg low, if_pos high]
      rfl
    · have highGuard : ¬pitHz < frequency := fun above => high (BitVec.lt_def.mp above)
      have fits : pitHz.toNat + (frequency / 2).toNat < 2 ^ 32 := by omega
      have sum : (pitHz + frequency / 2).toNat = 1193180 + frequency.toNat / 2 := by
        rw [BitVec.toNat_add_of_lt fits, half, clock]
      rw [pitCount, if_neg lowGuard, if_neg highGuard, add_exact prof _ _ fits, countFor,
        if_neg low, if_neg high]
      simp only [Option.bind_eq_bind, Option.bind_some]
      congr 1
      apply BitVec.eq_of_toNat_eq
      rw [BitVec.toNat_setWidth, BitVec.toNat_udiv, sum, BitVec.toNat_ofNat, nearestDiv]

section Writes

variable {channel mode : BitVec 16}

theorem control_word_fields (channels : channel = 0 ∨ channel = 2) (modes : mode = 2 ∨ mode = 3) :
    (controlWord channel mode).toNat / 64 = channel.toNat ∧ channel.toNat < 3 ∧
      controlAccess (controlWord channel mode) = some .lowThenHigh ∧
      controlMode (controlWord channel mode) = mode.toNat ∧
      (controlWord channel mode).getLsbD 0 = false := by
  rcases channels with rfl | rfl <;> rcases modes with rfl | rfl <;> decide

theorem configure_writes (prof : Profile) (channels : channel = 0 ∨ channel = 2)
    (modes : mode = 2 ∨ mode = 3) (frequency : BitVec 32) :
    pitConfigureChannel prof channel mode frequency =
      some [(0x43, controlWord channel mode),
        (0x40 + channel, (BitVec.ofNat 16 (countFor frequency.toNat)).setWidth 8),
        (0x40 + channel, (BitVec.ofNat 16 (countFor frequency.toNat) >>> 8).setWidth 8)] := by
  have port : prof.add pitPortCounterOffsetToChannel channel =
      some (pitPortCounterOffsetToChannel + channel) := by
    apply add_exact
    rcases channels with rfl | rfl <;> decide
  rw [pitConfigureChannel, if_pos ⟨channels, modes⟩, pit_count_eq, port]
  rfl

def programmed (mode : BitVec 16) (frequency : BitVec 32) : Counter where
  mode := mode.toNat
  access := .lowThenHigh
  bcd := false
  pendingLow := none
  reload := BitVec.ofNat 16 (countFor frequency.toNat)
  loaded := true

theorem configured_eq (prof : Profile) (channels : channel = 0 ∨ channel = 2)
    (modes : mode = 2 ∨ mode = 3) (frequency : BitVec 32) (timer : Timer) :
    configured prof channel mode frequency timer =
      some ⟨Function.update timer.counter channel.toNat (programmed mode frequency)⟩ := by
  obtain ⟨selected, numbered, access, decoded, binary⟩ := control_word_fields channels modes
  have address : (0x40 + channel).toNat = 0x40 + (controlWord channel mode).toNat / 64 := by
    rcases channels with rfl | rfl <;> rw [selected] <;> decide
  rw [configured, configure_writes prof channels modes, Option.map_some,
    out_all_low_then_high timer _ address (by omega) access, selected, decoded, binary]
  rfl

end Writes

/-- Both calls program a count that the timer accepts, and the higher frequency has no longer
period. -/
def LegalAndOrdered (prof : Profile) (channel mode : BitVec 16) (lower higher : BitVec 32) : Prop :=
  ∀ timer, ∃ slow fast,
    configured prof channel mode lower timer = some slow ∧
    configured prof channel mode higher timer = some fast ∧
    (slow.counter channel.toNat).Accepts ∧ (fast.counter channel.toNat).Accepts ∧
    (fast.counter channel.toNat).period ≤ (slow.counter channel.toNat).period

/-- From two thirds of the clock on the quotient rounds to one, up to the clock itself. -/
def RoundsToOne (frequency : BitVec 32) : Prop :=
  795454 ≤ frequency.toNat ∧ frequency.toNat ≤ pitHz.toNat

theorem count_for_eq_one_iff (frequency : Nat) :
    countFor frequency = 1 ↔ 795454 ≤ frequency ∧ frequency ≤ 1193180 := by
  by_cases middle : 19 ≤ frequency ∧ frequency ≤ 1193180
  · rw [countFor, if_neg (by omega), if_neg (by omega), nearest_div_eq_one_iff (by omega)]
    omega
  · have outside : countFor frequency = 0 ∨ countFor frequency = 2 := by
      unfold countFor
      split_ifs
      · exact Or.inl rfl
      · exact Or.inr rfl
      · omega
    omega

theorem count_for_eq_zero_iff (frequency : Nat) : countFor frequency = 0 ↔ frequency < 19 := by
  unfold countFor
  split_ifs with low high
  · exact iff_of_true rfl low
  · exact iff_of_false (by decide) low
  · have positive : 0 < nearestDiv 1193180 frequency := Nat.div_pos (by omega) (by omega)
    omega

def periodFor (frequency : Nat) : Nat :=
  if countFor frequency = 0 then 65536 else countFor frequency

theorem period_for_antitone {lower higher : Nat} (ordered : lower ≤ higher)
    (legal : countFor lower ≠ 1) : periodFor higher ≤ periodFor lower := by
  have bounded := count_for_lt higher
  have lowerZero := count_for_eq_zero_iff lower
  have higherZero := count_for_eq_zero_iff higher
  by_cases low : lower < 19
  · rw [periodFor, periodFor, if_pos (lowerZero.mpr low)]
    split_ifs
    · exact Nat.le_refl _
    · omega
  · rw [periodFor, periodFor, if_neg (mt lowerZero.mp low),
      if_neg (mt higherZero.mp (by omega))]
    by_cases high : 1193180 < higher
    · have least : countFor higher = 2 := by
        rw [countFor, if_neg (by omega), if_pos high]
      omega
    · rw [countFor, countFor, if_neg (by omega), if_neg high, if_neg low, if_neg (by omega)]
      exact nearest_div_antitone (by omega) ordered

theorem programmed_accepts_iff {mode : BitVec 16} (modes : mode = 2 ∨ mode = 3)
    (frequency : BitVec 32) :
    (programmed mode frequency).Accepts ↔ countFor frequency.toNat ≠ 1 := by
  have bounded := count_for_lt frequency.toNat
  have periodic : (programmed mode frequency).mode = 2 ∨ (programmed mode frequency).mode = 3 := by
    rcases modes with rfl | rfl
    · exact Or.inl rfl
    · exact Or.inr rfl
  have count : (programmed mode frequency).reload = 1 ↔ countFor frequency.toNat = 1 := by
    rw [← BitVec.toNat_inj]
    change countFor frequency.toNat % 65536 = 1 ↔ _
    rw [Nat.mod_eq_of_lt bounded]
  unfold Counter.Accepts
  rw [Ne, count]
  exact ⟨fun accepted => accepted periodic, fun legal _ => legal⟩

theorem programmed_period (mode : BitVec 16) (frequency : BitVec 32) :
    (programmed mode frequency).period = periodFor frequency.toNat := by
  have bounded := count_for_lt frequency.toNat
  have value : (programmed mode frequency).reload.toNat = countFor frequency.toNat :=
    Nat.mod_eq_of_lt bounded
  have zero : (programmed mode frequency).reload = 0 ↔ countFor frequency.toNat = 0 := by
    rw [← BitVec.toNat_inj, value]
    rfl
  unfold Counter.period periodFor
  by_cases empty : countFor frequency.toNat = 0
  · rw [if_pos (zero.mpr empty), if_pos empty]
  · rw [if_neg (mt zero.mp empty), if_neg empty, value]

theorem legal_and_ordered_counts (prof : Profile) {channel mode : BitVec 16}
    (channels : channel = 0 ∨ channel = 2) (modes : mode = 2 ∨ mode = 3)
    (lower higher : BitVec 32) :
    LegalAndOrdered prof channel mode lower higher ↔
      countFor lower.toNat ≠ 1 ∧ countFor higher.toNat ≠ 1 ∧
        periodFor higher.toNat ≤ periodFor lower.toNat := by
  have ran := configured_eq prof channels modes
  constructor
  · intro sound
    obtain ⟨slow, fast, slowRan, fastRan, slowLegal, fastLegal, falls⟩ :=
      sound ⟨fun _ => programmed mode lower⟩
    rw [ran] at slowRan fastRan
    cases slowRan
    cases fastRan
    simp only [Function.update_self, programmed_accepts_iff modes, programmed_period] at *
    exact ⟨slowLegal, fastLegal, falls⟩
  · intro counts timer
    rcases counts with ⟨lowerLegal, higherLegal, falls⟩
    refine ⟨_, _, ran lower timer, ran higher timer, ?_⟩
    simp only [Function.update_self, programmed_accepts_iff modes, programmed_period]
    exact ⟨lowerLegal, higherLegal, falls⟩

/-- Of two frequencies in order, both get a legal count and ordered periods exactly when neither
rounds to a count of one. -/
theorem legal_and_ordered_iff (prof : Profile) (channel mode : BitVec 16)
    (lower higher : BitVec 32) (channels : channel = 0 ∨ channel = 2)
    (modes : mode = 2 ∨ mode = 3) (ordered : lower.toNat ≤ higher.toNat) :
    LegalAndOrdered prof channel mode lower higher ↔
      ¬RoundsToOne lower ∧ ¬RoundsToOne higher := by
  have one : ∀ frequency : BitVec 32, countFor frequency.toNat = 1 ↔ RoundsToOne frequency :=
    fun frequency => count_for_eq_one_iff frequency.toNat
  rw [legal_and_ordered_counts prof channels modes, Ne, Ne, one, one]
  constructor
  · intro sound
    exact ⟨sound.1, sound.2.1⟩
  · intro legal
    rcases legal with ⟨lowerLegal, higherLegal⟩
    exact ⟨lowerLegal, higherLegal,
      period_for_antitone ordered (mt (one lower).mp lowerLegal)⟩

theorem audible_frequencies_legal : LegalAndOrdered .debug 0 2 200 440 :=
  (legal_and_ordered_iff .debug 0 2 200 440 (by decide) (by decide) (by decide)).mpr
    ⟨fun rounds => absurd rounds.1 (by decide), fun rounds => absurd rounds.1 (by decide)⟩

/-- At the clock frequency itself the illegal count is programmed. -/
theorem clock_frequency_count_illegal :
    ¬∀ (prof : Profile) (channel mode : BitVec 16) (lower higher : BitVec 32),
      (channel = 0 ∨ channel = 2) → (mode = 2 ∨ mode = 3) → lower.toNat ≤ higher.toNat →
        LegalAndOrdered prof channel mode lower higher := by
  intro sound
  have counts := (legal_and_ordered_counts .release (by decide) (by decide) 1193180 1193181).mp
    (sound .release 0 2 1193180 1193181 (by decide) (by decide) (by decide))
  have one : countFor (1193180 : BitVec 32).toNat = 1 := by decide
  exact counts.1 one

/-- Between the cut-offs the arithmetic is exact, the count is the nearest divisor of the clock, and
the three writes make a timer in any state run the selected channel in the given mode with that
count. -/
theorem nearest_divisor_programmed (prof : Profile) (channel mode : BitVec 16)
    (frequency : BitVec 32) (channels : channel = 0 ∨ channel = 2) (modes : mode = 2 ∨ mode = 3)
    (lower : 19 ≤ frequency.toNat) (upper : frequency.toNat ≤ pitHz.toNat) :
    pitHz.toNat + frequency.toNat / 2 < 2 ^ 32 ∧
    (pitHz.toNat + frequency.toNat / 2) / frequency.toNat < 2 ^ 16 ∧
    ∃ count : BitVec 16,
      pitCount prof frequency = some count ∧
      count.toNat = (pitHz.toNat + frequency.toNat / 2) / frequency.toNat ∧
      |(count.toNat : ℚ) * frequency.toNat - pitHz.toNat| ≤ (frequency.toNat : ℚ) / 2 ∧
      pitConfigureChannel prof channel mode frequency =
        some [(0x43, controlWord channel mode), (0x40 + channel, count.setWidth 8),
          (0x40 + channel, (count >>> 8).setWidth 8)] ∧
      ∀ timer, ∃ after, configured prof channel mode frequency timer = some after ∧
        after.counter channel.toNat =
          { mode := mode.toNat
            access := .lowThenHigh
            bcd := false
            pendingLow := none
            reload := count
            loaded := true } ∧
        ∀ other, other ≠ channel.toNat → after.counter other = timer.counter other := by
  have clock : pitHz.toNat = 1193180 := rfl
  have exactCount : countFor frequency.toNat = nearestDiv 1193180 frequency.toNat := by
    rw [countFor, if_neg (by omega), if_neg (by omega)]
  have bounded := nearest_count_lt lower
  have value : (BitVec.ofNat 16 (countFor frequency.toNat)).toNat =
      nearestDiv 1193180 frequency.toNat := by
    rw [exactCount, BitVec.toNat_ofNat, Nat.mod_eq_of_lt bounded]
  refine ⟨by omega, bounded, BitVec.ofNat 16 (countFor frequency.toNat),
    pit_count_eq prof frequency, value, ?_, configure_writes prof channels modes frequency, ?_⟩
  · rw [value, clock]
    exact nearest_div_error (Nat.lt_of_lt_of_le (by decide) lower)
  · intro timer
    refine ⟨_, configured_eq prof channels modes frequency timer, ?_, ?_⟩
    · exact Function.update_self _ _ _
    · intro other different
      exact Function.update_of_ne different _ _

/-- The tick rate of the kernel, 200 Hz on channel 0 in mode 2. -/
theorem timer_freq_programmed :
    ∃ count : BitVec 16, pitCount .release 200 = some count ∧
      |(count.toNat : ℚ) * 200 - 1193180| ≤ 100 := by
  obtain ⟨_, _, count, counted, _, near, _⟩ := nearest_divisor_programmed .release 0 2 200
    (by decide) (by decide) (by decide) (by decide)
  have frequency : (200 : BitVec 32).toNat = 200 := rfl
  have clock : pitHz.toNat = 1193180 := rfl
  rw [frequency, clock] at near
  refine ⟨count, counted, ?_⟩
  norm_num at near ⊢
  exact near

end RondOS.Pit
