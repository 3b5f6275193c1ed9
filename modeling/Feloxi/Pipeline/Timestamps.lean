import Feloxi.Pipeline.Events

/-!
# Feloxi.Pipeline.Timestamps

The date of an event. `OffsetDateTime` holds the years -9999 to 9999, and its `+` panics outside
of them; the timestamp is any double that a message carries.

The whole seconds of a timestamp are a date or not, but the fraction is added in both cases. This
goes wrong at two places: in the second before the first date, whose whole part is that date, and
beyond 2^63, where the cast saturates and what is left is no fraction.
-/

namespace Feloxi.Pipeline

open F64 (IsDouble trunc)

/-! ### Dates -/

/-- The first nanosecond of the year -9999, counted from 1970. -/
def minNanos : Int := -377705116800000000000

/-- The last nanosecond of the year 9999. -/
def maxNanos : Int := 253402300799999999999

/-- A date, in nanoseconds since 1970. -/
structure OffsetDateTime where
  nanos : Int
  inYears : minNanos ≤ nanos ∧ nanos ≤ maxNanos
  deriving DecidableEq

/-- The date of a number of nanoseconds, if it is one. -/
def OffsetDateTime.ofNanos (nanos : Int) : Option OffsetDateTime :=
  if h : minNanos ≤ nanos ∧ nanos ≤ maxNanos then some ⟨nanos, h⟩ else none

/-- `from_unix_timestamp`. -/
def OffsetDateTime.fromUnixTimestamp (secs : Int) : Option OffsetDateTime :=
  if unixInRange secs then OffsetDateTime.ofNanos (secs * 1000000000) else none

/-- `+` of a duration; none if it panics. -/
def OffsetDateTime.add (date : OffsetDateTime) (nanos : Int) : Option OffsetDateTime :=
  OffsetDateTime.ofNanos (date.nanos + nanos)

theorem OffsetDateTime.ofNanos_map (nanos : Int) :
    (OffsetDateTime.ofNanos nanos).map (·.nanos) =
      if minNanos ≤ nanos ∧ nanos ≤ maxNanos then some nanos else none := by
  unfold ofNanos
  split <;> rfl

/-- The seconds in range are those of a date. -/
theorem OffsetDateTime.fromUnixTimestamp_getD (secs : Int) (now : OffsetDateTime) :
    ((fromUnixTimestamp secs).getD now).nanos =
      if unixInRange secs then secs * 1000000000 else now.nanos := by
  unfold fromUnixTimestamp
  split
  · rename_i hsecs
    have := of_decide_eq_true hsecs
    rw [ofNanos, dif_pos (by unfold minNanos maxNanos; omega)]
    rfl
  · rfl

/-! ### The date of an event -/

/-- The nanoseconds that are added to the whole seconds. -/
def timestampNanos (timestamp : F64) : Int :=
  ((timestamp.sub (.ofI64 timestamp.toI64)).mul (.fin 1000000000)).toI64

/-- The timestamp of both rows; none if adding the nanoseconds panics. -/
def eventDate (now : OffsetDateTime) (timestamp : F64) : Option OffsetDateTime :=
  ((OffsetDateTime.fromUnixTimestamp timestamp.toI64).getD now).add (timestampNanos timestamp)

/-- `normalize_task_event`; none if it panics. -/
def normalizeTaskEventChecked (eventId : Uuid) (now : OffsetDateTime) (tenantId agentId : Uuid)
    (brokerType : String) (raw : RawTaskEvent) : Option TaskEventRow :=
  (eventDate now raw.timestamp).map fun date =>
    { normalizeTaskEvent eventId now.nanos tenantId agentId brokerType raw with
      timestamp := date.nanos }

/-- `normalize_worker_event`; none if it panics. -/
def normalizeWorkerEventChecked (eventId : Uuid) (now : OffsetDateTime) (tenantId agentId : Uuid)
    (raw : RawWorkerEvent) : Option WorkerEventRow :=
  (eventDate now raw.timestamp).map fun date =>
    { normalizeWorkerEvent eventId now.nanos tenantId agentId raw with timestamp := date.nanos }

theorem eventDate_map (now : OffsetDateTime) (timestamp : F64) :
    (eventDate now timestamp).map (·.nanos) =
      if minNanos ≤ eventTime now.nanos timestamp ∧ eventTime now.nanos timestamp ≤ maxNanos then
        some (eventTime now.nanos timestamp)
      else none := by
  rw [eventDate, OffsetDateTime.add, OffsetDateTime.ofNanos_map,
    OffsetDateTime.fromUnixTimestamp_getD]
  rfl

theorem eventTime_of_eventDate {now date : OffsetDateTime} {timestamp : F64}
    (h : eventDate now timestamp = some date) : eventTime now.nanos timestamp = date.nanos := by
  have := eventDate_map now timestamp
  rw [h] at this
  split at this
  · exact (Option.some.inj this).symm
  · cases this

/-- A row that is made is the row of the unchecked addition. -/
theorem normalizeTaskEventChecked_eq_some {eventId : Uuid} {now : OffsetDateTime}
    {tenantId agentId : Uuid} {brokerType : String} {raw : RawTaskEvent} {row : TaskEventRow}
    (h : normalizeTaskEventChecked eventId now tenantId agentId brokerType raw = some row) :
    row = normalizeTaskEvent eventId now.nanos tenantId agentId brokerType raw := by
  obtain ⟨date, hdate, rfl⟩ := Option.map_eq_some_iff.1 h
  simp [normalizeTaskEvent, eventTime_of_eventDate hdate]

theorem normalizeWorkerEventChecked_eq_some {eventId : Uuid} {now : OffsetDateTime}
    {tenantId agentId : Uuid} {raw : RawWorkerEvent} {row : WorkerEventRow}
    (h : normalizeWorkerEventChecked eventId now tenantId agentId raw = some row) :
    row = normalizeWorkerEvent eventId now.nanos tenantId agentId raw := by
  obtain ⟨date, hdate, rfl⟩ := Option.map_eq_some_iff.1 h
  simp [normalizeWorkerEvent, eventTime_of_eventDate hdate]

/-! ### Where the date is right -/

/-- The timestamp, in seconds, is a date. -/
def InYears (q : ℚ) : Prop := minNanos ≤ q * 10 ^ 9 ∧ q * 10 ^ 9 ≤ maxNanos

/-- A row is made, dated by the timestamp if that is a date and by the ingestion if not. -/
def DatedBy (now : OffsetDateTime) (q : ℚ) (timestamp : Option Int) : Prop :=
  ∃ t, timestamp = some t ∧ (InYears q → |(t : ℚ) - q * 10 ^ 9| < 10 ^ 6) ∧
    (¬ InYears q → |t - now.nanos| ≤ 10 ^ 9)

/-- What a timestamp is past its whole seconds, in nanoseconds. -/
def fraction (q : ℚ) : ℚ := (q - trunc q) * 10 ^ 9

/-- A timestamp is not in the second before the first date, and its size is at most 2^63. If it is
no date, the clock leaves room for its fraction. -/
def Datable (now : OffsetDateTime) (q : ℚ) : Prop :=
  ¬ (-377705116801 < q ∧ q < -377705116800) ∧ |q| ≤ 2 ^ 63 ∧
    (¬ InYears q → minNanos - 1 < now.nanos + fraction q ∧ now.nanos + fraction q < maxNanos + 1)

theorem abs_fraction_lt (q : ℚ) : |fraction q| < 10 ^ 9 := by
  have := F64.abs_sub_trunc_lt_one q
  rw [fraction, abs_mul, abs_of_pos (by norm_num : (0 : ℚ) < 10 ^ 9)]
  linarith

/-- A clock that is a second away from both ends leaves room for every fraction. -/
theorem datable_of_inside {now : OffsetDateTime} {q : ℚ}
    (hnow : minNanos + 10 ^ 9 ≤ now.nanos ∧ now.nanos + 10 ^ 9 ≤ maxNanos)
    (hsecond : ¬ (-377705116801 < q ∧ q < -377705116800)) (hq : |q| ≤ 2 ^ 63) :
    Datable now q := by
  refine ⟨hsecond, hq, fun _ => ?_⟩
  have hfraction := abs_lt.1 (abs_fraction_lt q)
  have hmin : (minNanos : ℚ) + 10 ^ 9 ≤ now.nanos := by exact_mod_cast hnow.1
  have hmax : (now.nanos : ℚ) + 10 ^ 9 ≤ maxNanos := by exact_mod_cast hnow.2
  constructor <;> linarith

/-- Adding what is left of the fraction after truncation gives a date in the same cases. -/
theorem inYears_add_trunc (now : OffsetDateTime) (x : ℚ) :
    (minNanos ≤ now.nanos + trunc x ∧ now.nanos + trunc x ≤ maxNanos) ↔
      (minNanos - 1 < now.nanos + x ∧ now.nanos + x < maxNanos + 1) := by
  have hmin : (minNanos : ℚ) ≤ now.nanos := by exact_mod_cast now.inYears.1
  have hmax : (now.nanos : ℚ) ≤ maxNanos := by exact_mod_cast now.inYears.2
  have hcast : (minNanos ≤ now.nanos + trunc x ∧ now.nanos + trunc x ≤ maxNanos) ↔
      ((minNanos : ℚ) ≤ now.nanos + trunc x ∧ (now.nanos : ℚ) + trunc x ≤ maxNanos) := by
    norm_cast
  rw [hcast]
  rcases lt_or_ge x 0 with hx | hx
  · have hbounds := F64.trunc_bounds_of_neg hx
    have hneg : (trunc x : ℚ) ≤ 0 := by
      have := F64.trunc_mono hx.le
      rw [show trunc 0 = 0 from F64.trunc_intCast 0] at this
      exact_mod_cast this
    constructor
    · intro h
      constructor <;> linarith
    · intro h
      refine ⟨?_, by linarith⟩
      -- an integer above `minNanos - 1`
      have : (minNanos : ℚ) - 1 < now.nanos + trunc x := by linarith
      have : minNanos - 1 < now.nanos + trunc x := by exact_mod_cast this
      have : minNanos ≤ now.nanos + trunc x := by omega
      exact_mod_cast this
  · have hbounds := F64.trunc_bounds hx
    have hpos : (0 : ℚ) ≤ trunc x := by
      rw [F64.trunc_of_nonneg hx]
      exact_mod_cast Int.floor_nonneg.2 hx
    constructor
    · intro h
      constructor <;> linarith
    · intro h
      refine ⟨by linarith, ?_⟩
      have : (now.nanos : ℚ) + trunc x < maxNanos + 1 := by linarith
      have : now.nanos + trunc x < maxNanos + 1 := by exact_mod_cast this
      have : now.nanos + trunc x ≤ maxNanos := by omega
      exact_mod_cast this

/-! ### The nanoseconds -/

theorem timestampNanos_fin {q s : ℚ} (h : F64.ofI64 (F64.toI64 (.fin q)) = .fin s) :
    timestampNanos (.fin q) = F64.toI64 (.fin ((q - s) * 10 ^ 9)) := by
  have hbillion : (1000000000 : ℚ) = 10 ^ 9 := by norm_num
  rw [timestampNanos, h, sub_eq_add_neg, ← hbillion]
  rfl

/-- Up to 2^63 the nanoseconds are those of the fraction. -/
theorem timestampNanos_of_le {q : ℚ} (h : IsDouble q) (hq : |q| ≤ 2 ^ 63) :
    timestampNanos (.fin q) = trunc (fraction q) := by
  rcases hq.lt_or_eq with hlt | heq
  · rw [timestampNanos_fin (F64.ofI64_toI64 h hlt)]
    exact F64.toI64_of_lt ((abs_fraction_lt q).trans (by norm_num))
  · -- both ends are integers, and the cast back gives them again
    rcases eq_or_eq_neg_of_abs_eq heq with rfl | rfl
    · rw [timestampNanos_fin (F64.ofI64_toI64_of_ge le_rfl), fraction, F64.trunc_two_pow]
      norm_num [F64.toI64_fin, trunc]
    · rw [timestampNanos_fin (F64.ofI64_toI64_of_le le_rfl), fraction, F64.trunc_neg,
        F64.trunc_two_pow]
      norm_num [F64.toI64_fin, trunc]

/-- Beyond 2^63 they are more than a second. -/
theorem lt_abs_timestampNanos {q : ℚ} (h : IsDouble q) (hq : 2 ^ 63 < |q|) :
    10 ^ 9 < |timestampNanos (.fin q)| := by
  obtain ⟨z, hz⟩ := h.exists_multiple (k := 11) hq.le
  rcases lt_or_ge q 0 with hneg | hpos
  · rw [abs_of_neg hneg] at hq
    have hfar : q ≤ -2 ^ 63 - 2048 := by
      have : z < -2 ^ 52 := by
        have : (z : ℚ) < -2 ^ 52 := by norm_num [hz] at hq ⊢; linarith
        exact_mod_cast this
      have : (z : ℚ) ≤ -2 ^ 52 - 1 := by exact_mod_cast Int.le_sub_one_of_lt this
      norm_num [hz] at this ⊢
      linarith
    rw [timestampNanos_fin (F64.ofI64_toI64_of_le (by linarith))]
    have hle := F64.trunc_mono (show (q - -2 ^ 63) * 10 ^ 9 ≤ -2 ^ 31 by linarith)
    rw [F64.trunc_neg, F64.trunc_two_pow] at hle
    rw [F64.toI64_fin, lt_abs]
    omega
  · rw [abs_of_nonneg hpos] at hq
    have hfar : 2 ^ 63 + 2048 ≤ q := by
      have : 2 ^ 52 < z := by
        have : (2 ^ 52 : ℚ) < z := by norm_num [hz] at hq ⊢; linarith
        exact_mod_cast this
      have : (2 ^ 52 + 1 : ℚ) ≤ z := by exact_mod_cast Int.add_one_le_of_lt this
      norm_num [hz] at this ⊢
      linarith
    rw [timestampNanos_fin (F64.ofI64_toI64_of_ge hq.le)]
    have hle := F64.trunc_mono (show (2 : ℚ) ^ 31 ≤ (q - 2 ^ 63) * 10 ^ 9 by linarith)
    rw [F64.trunc_two_pow] at hle
    rw [F64.toI64_fin, lt_abs]
    omega

/-! ### Seconds in and out of range -/

/-- Above the last date there is no double before the next second. -/
theorem next_second_le {q : ℚ} (h : IsDouble q) (hq : maxNanos < q * 10 ^ 9) :
    253402300800 ≤ q := by
  unfold maxNanos at hq
  have hlarge : (2 : ℚ) ^ (52 + (-15 : ℤ)) ≤ |q| := by
    refine le_trans ?_ (le_abs_self q)
    norm_num at hq ⊢
    linarith
  -- a double of this size is a multiple of 2^-15
  obtain ⟨z, hz⟩ := h.exists_multiple hlarge
  rw [show (2 : ℚ) ^ (-15 : ℤ) = 1 / 32768 by norm_num] at hz
  have hlt : (8303486592614399 : ℚ) < z := by
    norm_num at hq
    rw [hz] at hq
    linarith
  have hle : (8303486592614399 : ℤ) + 1 ≤ z := Int.add_one_le_of_lt (by exact_mod_cast hlt)
  have : (8303486592614400 : ℚ) ≤ z := by exact_mod_cast hle
  rw [hz]
  linarith

/-- In the second before the first date the fraction is some nanoseconds long. -/
theorem fraction_before_first {q : ℚ} (h : IsDouble q)
    (hq : -377705116801 < q ∧ q < -377705116800) :
    trunc q = -377705116800 ∧ trunc (fraction q) < 0 := by
  have hwhole : trunc q = -377705116800 := by
    have := F64.trunc_bounds_of_neg (show q < 0 by linarith [hq.2])
    have hlower : (-377705116801 : ℚ) < trunc q := by linarith
    have hupper : (trunc q : ℚ) < -377705116799 := by linarith
    have : (-377705116801 : ℤ) < trunc q := by exact_mod_cast hlower
    have : trunc q < (-377705116799 : ℤ) := by exact_mod_cast hupper
    omega
  refine ⟨hwhole, ?_⟩
  have hlarge : (2 : ℚ) ^ (52 + (-14 : ℤ)) ≤ |q| := by
    refine le_trans ?_ (neg_le_abs q)
    norm_num
    linarith
  obtain ⟨z, hz⟩ := h.exists_multiple hlarge
  rw [show (2 : ℚ) ^ (-14 : ℤ) = 1 / 16384 by norm_num] at hz
  have hlt : (z : ℚ) < -6188320633651200 := by
    rw [hz] at hq
    linarith
  have hle : z ≤ -6188320633651200 - 1 := Int.le_sub_one_of_lt (by exact_mod_cast hlt)
  have : (z : ℚ) ≤ -6188320633651201 := by exact_mod_cast hle
  -- the spacing is 2^-14 s, far more than a nanosecond
  have hfraction : fraction q ≤ -1 := by
    rw [fraction, hwhole, hz]
    norm_num
    linarith
  have := F64.trunc_mono hfraction
  rw [F64.trunc_neg, show trunc 1 = 1 from F64.trunc_intCast 1] at this
  omega

/-- The whole seconds of a date are in range. -/
theorem unixInRange_of_inYears {q : ℚ} (h : InYears q) :
    unixInRange (F64.toI64 (.fin q)) = true ∧ |q| < 2 ^ 63 := by
  have hlower : -377705116800 ≤ q := by
    have := h.1
    norm_num [minNanos] at this
    linarith
  have hupper : q < 253402300800 := by
    have := h.2
    norm_num [maxNanos] at this
    linarith
  have hsize : |q| < 2 ^ 63 := abs_lt.2 ⟨by linarith, by linarith⟩
  refine ⟨?_, hsize⟩
  rw [F64.toI64_of_lt hsize, unixInRange, decide_eq_true_eq]
  constructor
  · have := F64.trunc_mono hlower
    rwa [F64.trunc_neg, show trunc 377705116800 = 377705116800 from
      F64.trunc_intCast 377705116800] at this
  · have hbelow : trunc q < 253402300800 := by
      rcases lt_or_ge q 0 with hneg | hpos
      · have := F64.trunc_mono hneg.le
        rw [show trunc 0 = 0 from F64.trunc_intCast 0] at this
        omega
      · exact_mod_cast (F64.trunc_bounds hpos).1.trans_lt hupper
    omega

/-- Outside of the dates and of the second before the first, the seconds are out of range. -/
theorem unixInRange_of_not_inYears {q : ℚ} (h : IsDouble q) (hyears : ¬ InYears q)
    (hsecond : ¬ (-377705116801 < q ∧ q < -377705116800)) :
    unixInRange (F64.toI64 (.fin q)) = false := by
  have hout : q ≤ -377705116801 ∨ 253402300800 ≤ q := by
    by_cases hmax : maxNanos < q * 10 ^ 9
    · exact .inr (next_second_le h hmax)
    · left
      by_contra hlower
      refine hsecond ⟨not_le.1 hlower, ?_⟩
      by_contra hfirst
      refine hyears ⟨?_, not_lt.1 hmax⟩
      norm_num [minNanos]
      linarith
  rw [unixInRange, decide_eq_false_iff_not, F64.toI64_fin]
  rcases hout with hlow | hhigh
  · have := F64.trunc_mono hlow
    rw [F64.trunc_neg, show trunc 377705116801 = 377705116801 from
      F64.trunc_intCast 377705116801] at this
    omega
  · have := F64.trunc_mono hhigh
    rw [show trunc 253402300800 = 253402300800 from F64.trunc_intCast 253402300800] at this
    omega

/-! ### Which timestamps are dated -/

theorem datedBy_eventDate_iff (now : OffsetDateTime) (q : ℚ) :
    DatedBy now q ((eventDate now (.fin q)).map (·.nanos)) ↔
      (minNanos ≤ eventTime now.nanos (.fin q) ∧ eventTime now.nanos (.fin q) ≤ maxNanos) ∧
        (InYears q → |(eventTime now.nanos (.fin q) : ℚ) - q * 10 ^ 9| < 10 ^ 6) ∧
        (¬ InYears q → |eventTime now.nanos (.fin q) - now.nanos| ≤ 10 ^ 9) := by
  rw [eventDate_map]
  unfold DatedBy
  split
  · rename_i hrange
    simp [hrange]
  · rename_i hrange
    simp [hrange]

theorem eventTime_eq (now : OffsetDateTime) (timestamp : F64) :
    eventTime now.nanos timestamp =
      (if unixInRange timestamp.toI64 then timestamp.toI64 * 1000000000 else now.nanos) +
        timestampNanos timestamp := rfl

/-- A date keeps its timestamp up to the last nanosecond. -/
theorem datedBy_of_inYears (now : OffsetDateTime) {q : ℚ} (h : IsDouble q) (hyears : InYears q) :
    DatedBy now q ((eventDate now (.fin q)).map (·.nanos)) := by
  obtain ⟨hrange, hsize⟩ := unixInRange_of_inYears hyears
  have htime : eventTime now.nanos (.fin q) = trunc q * 1000000000 + trunc (fraction q) := by
    rw [eventTime_eq, if_pos hrange, F64.toI64_of_lt hsize, timestampNanos_of_le h hsize.le]
  -- only the last nanosecond is cut
  have hclose : |(eventTime now.nanos (.fin q) : ℚ) - q * 10 ^ 9| < 1 := by
    have := F64.abs_sub_trunc_lt_one (fraction q)
    rw [abs_sub_comm] at this
    rw [htime]
    push_cast
    convert this using 2
    rw [fraction]
    ring
  have hbounds := abs_lt.1 hclose
  rw [datedBy_eventDate_iff]
  refine ⟨⟨?_, ?_⟩, fun _ => hclose.trans (by norm_num), fun hnot => absurd hyears hnot⟩
  · have hlt : (minNanos : ℚ) - 1 < eventTime now.nanos (.fin q) := by linarith [hyears.1]
    have : minNanos - 1 < eventTime now.nanos (.fin q) := by exact_mod_cast hlt
    omega
  · have hlt : (eventTime now.nanos (.fin q) : ℚ) < maxNanos + 1 := by linarith [hyears.2]
    have : eventTime now.nanos (.fin q) < maxNanos + 1 := by exact_mod_cast hlt
    omega

/-- The second before the first date panics. -/
theorem not_datedBy_before_first (now : OffsetDateTime) {q : ℚ} (h : IsDouble q)
    (hq : -377705116801 < q ∧ q < -377705116800) :
    ¬ DatedBy now q ((eventDate now (.fin q)).map (·.nanos)) := by
  obtain ⟨hwhole, hfraction⟩ := fraction_before_first h hq
  have hsize : |q| < 2 ^ 63 := abs_lt.2 ⟨by linarith [hq.1], by linarith [hq.2]⟩
  rw [datedBy_eventDate_iff, eventTime_eq, F64.toI64_of_lt hsize, hwhole,
    timestampNanos_of_le h hsize.le, if_pos (by decide)]
  intro hdated
  have := hdated.1.1
  unfold minNanos at this
  omega

/-- Every other timestamp that is no date gives the time of ingestion and its nanoseconds. -/
theorem datedBy_of_not_inYears (now : OffsetDateTime) {q : ℚ} (h : IsDouble q)
    (hyears : ¬ InYears q) (hsecond : ¬ (-377705116801 < q ∧ q < -377705116800)) :
    DatedBy now q ((eventDate now (.fin q)).map (·.nanos)) ↔
      |q| ≤ 2 ^ 63 ∧ minNanos - 1 < now.nanos + fraction q ∧
        now.nanos + fraction q < maxNanos + 1 := by
  have htime : eventTime now.nanos (.fin q) = now.nanos + timestampNanos (.fin q) := by
    rw [eventTime_eq, unixInRange_of_not_inYears h hyears hsecond]
    rfl
  rw [datedBy_eventDate_iff, htime]
  rcases le_or_gt |q| (2 ^ 63) with hle | hgt
  · have hnanos : |trunc (fraction q)| ≤ 10 ^ 9 := by
      have hcast : |fraction q| ≤ (10 ^ 9 : Nat) := by
        push_cast
        exact (abs_fraction_lt q).le
      have := F64.natAbs_trunc_le hcast
      rw [Int.abs_eq_natAbs]
      exact_mod_cast this
    rw [timestampNanos_of_le h hle, inYears_add_trunc, add_sub_cancel_left]
    exact ⟨fun hdated => ⟨hle, hdated.1⟩,
      fun hroom => ⟨hroom.2, fun hin => absurd hin hyears, fun _ => hnanos⟩⟩
  · have hfar := lt_abs_timestampNanos h hgt
    rw [add_sub_cancel_left]
    exact ⟨fun hdated => absurd (hdated.2.2 hyears) (not_le.2 hfar),
      fun hroom => absurd hroom.1 (not_le.2 hgt)⟩

theorem datedBy_iff (now : OffsetDateTime) {q : ℚ} (h : IsDouble q) :
    DatedBy now q ((eventDate now (.fin q)).map (·.nanos)) ↔ Datable now q := by
  unfold Datable
  by_cases hsecond : -377705116801 < q ∧ q < -377705116800
  · simp [hsecond, not_datedBy_before_first now h hsecond]
  · by_cases hyears : InYears q
    · have hsize := (unixInRange_of_inYears hyears).2.le
      simp [hsecond, hyears, hsize, datedBy_of_inYears now h hyears]
    · simp [hsecond, hyears, datedBy_of_not_inYears now h hyears hsecond]

theorem timestamp_normalizeTaskEventChecked (eventId : Uuid) (now : OffsetDateTime)
    (tenantId agentId : Uuid) (brokerType : String) (raw : RawTaskEvent) :
    (normalizeTaskEventChecked eventId now tenantId agentId brokerType raw).map (·.timestamp) =
      (eventDate now raw.timestamp).map (·.nanos) := by
  simp [normalizeTaskEventChecked, Function.comp_def]

theorem timestamp_normalizeWorkerEventChecked (eventId : Uuid) (now : OffsetDateTime)
    (tenantId agentId : Uuid) (raw : RawWorkerEvent) :
    (normalizeWorkerEventChecked eventId now tenantId agentId raw).map (·.timestamp) =
      (eventDate now raw.timestamp).map (·.nanos) := by
  simp [normalizeWorkerEventChecked, Function.comp_def]

/-- **Event timestamps.** Both rows are made, and dated by the timestamp or else by the ingestion,
exactly if the timestamp is datable. -/
theorem normalize_datedBy_iff (eventId : Uuid) (now : OffsetDateTime) (tenantId agentId : Uuid)
    (brokerType : String) (task : RawTaskEvent) (worker : RawWorkerEvent) {q : ℚ}
    (hq : IsDouble q) :
    (DatedBy now q ((normalizeTaskEventChecked eventId now tenantId agentId brokerType
        { task with timestamp := .fin q }).map (·.timestamp)) ↔ Datable now q) ∧
      (DatedBy now q ((normalizeWorkerEventChecked eventId now tenantId agentId
        { worker with timestamp := .fin q }).map (·.timestamp)) ↔ Datable now q) := by
  rw [timestamp_normalizeTaskEventChecked, timestamp_normalizeWorkerEventChecked]
  exact ⟨datedBy_iff now hq, datedBy_iff now hq⟩

/-- A clock at the end of 2023. -/
def sampleClock : OffsetDateTime := ⟨1704067199000000000, by decide⟩

/-- A message with nothing but its sender and a timestamp. -/
def timedMessage (timestamp : ℚ) : Json :=
  .obj [("hostname", .str "celery@w1"), ("timestamp", .float (.fin timestamp))]

/-- The timestamp of the row of such a message. -/
def timedRow (timestamp : ℚ) : Option Int :=
  ((parseCeleryWorkerEvent "worker-heartbeat" (timedMessage timestamp)).bind
    (normalizeWorkerEventChecked 1#128 sampleClock 7#128 9#128)).map (·.timestamp)

theorem normalize_datedBy_sample :
    IsDouble 0 ∧
      (DatedBy sampleClock 0 ((normalizeTaskEventChecked 1#128 sampleClock 7#128 9#128 "redis"
          { RawTaskEvent.syntheticSent .nan "t1" "add" "celery" "" "" none none with
            timestamp := .fin 0 }).map (·.timestamp)) ↔ Datable sampleClock 0) :=
  ⟨F64.isDouble_zero, (normalize_datedBy_iff 1#128 sampleClock 7#128 9#128 "redis"
    (.syntheticSent .nan "t1" "add" "celery" "" "" none none)
    ⟨"w", "w", "worker-online", .nan, none, none, none, none, none, none, none, none, none⟩
    F64.isDouble_zero).1⟩

/-- Half a second before the first date the addition panics; 10^19 seconds are stored as a date
that is 292 years away. -/
theorem not_datedBy_messages :
    IsDouble (-377705116800.5) ∧ IsDouble (10 ^ 19) ∧
      ¬ DatedBy sampleClock (-377705116800.5) (timedRow (-377705116800.5)) ∧
      ¬ DatedBy sampleClock (10 ^ 19) (timedRow (10 ^ 19)) := by
  have hpanic : timedRow (-377705116800.5) = none := by decide +kernel
  have hlate : timedRow (10 ^ 19) = some (1704067199000000000 + 9223372036854775807) := by
    decide +kernel
  refine ⟨⟨-755410233601, -1, by norm_num, by norm_num, by norm_num, by norm_num⟩,
    ⟨5 ^ 19, 19, by norm_num, by norm_num, by norm_num, by norm_num⟩, ?_, ?_⟩
  · rw [hpanic]
    intro ⟨t, h, _⟩
    cases h
  · rw [hlate]
    intro ⟨t, h, _, hout⟩
    obtain rfl := Option.some.inj h
    have := hout (by unfold InYears maxNanos; norm_num)
    norm_num [sampleClock] at this

end Feloxi.Pipeline
