import Mathlib
import Dittor.Lib.FixedWidth

/-!
# Token buckets (`token_bucket.c`)

Refilling a bucket computes with numbers of 32 and 64 bits, with and without sign; its level is the
exact one all the same (`refillSteps_level`), since the product that is added is smaller than the
gap. A pair of buckets is refilled by whole steps of 16 ticks. A call within a step changes nothing,
and one at or after its end drops the ticks of a step that is not complete, which are fewer than the
ticks it credits: so after any calls the steps credited are within a factor of two of the time
(`TokenRun.conforms`).
-/

namespace Dittor.Tor

open Dittor.Lib

/-! ## Raw buckets -/

/-- `token_bucket_cfg_t` -/
structure TokenBucketCfg where
  rate : UInt32
  burst : Int32
deriving DecidableEq

/-- `token_bucket_raw_t` -/
structure TokenBucketRaw where
  bucket : Int32
deriving DecidableEq

/-- `token_bucket_cfg_init`; `TOKEN_BUCKET_MAX_BURST` is `INT32_MAX`. -/
def tokenBucketCfgInit (rate burst : UInt32) : TokenBucketCfg where
  rate := rate
  burst := (if burst > 2147483647 then 2147483647 else burst).toInt32

/-- `token_bucket_raw_reset` -/
def tokenBucketRawReset (cfg : TokenBucketCfg) : TokenBucketRaw := ⟨cfg.burst⟩

/-- `token_bucket_raw_adjust` -/
def tokenBucketRawAdjust (b : TokenBucketRaw) (cfg : TokenBucketCfg) : TokenBucketRaw :=
  ⟨if b.bucket < cfg.burst then b.bucket else cfg.burst⟩

/-- `token_bucket_raw_refill_steps`: whether the bucket was empty and is not, and the bucket. -/
def tokenBucketRawRefillSteps (b : TokenBucketRaw) (cfg : TokenBucketCfg) (elapsed : UInt32) :
    Bool × TokenBucketRaw :=
  let wasEmpty := b.bucket ≤ 0
  let gap : UInt64 := cfg.burst.toInt64.toUInt64 - b.bucket.toInt64.toUInt64
  let bucket :=
    if elapsed.toUInt64 > gap / cfg.rate.toUInt64 then cfg.burst
    else (b.bucket.toUInt32 + cfg.rate * elapsed).toInt32
  (wasEmpty ∧ bucket > 0, ⟨bucket⟩)

/-- `token_bucket_raw_dec`: whether the bucket became empty, and the bucket. -/
def tokenBucketRawDec (b : TokenBucketRaw) (n : Int64) : Bool × TokenBucketRaw :=
  if n < 0 then (false, b)
  else
    let becomesEmpty := b.bucket > 0 ∧ n ≥ b.bucket.toInt64
    (becomesEmpty, ⟨(b.bucket.toInt64 - n).toInt32⟩)

/-! ## Read-write buckets -/

/-- `token_bucket_rw_t` -/
structure TokenBucketRw where
  cfg : TokenBucketCfg
  readBucket : TokenBucketRaw
  writeBucket : TokenBucketRaw
  lastRefilledAtTimestamp : UInt32
deriving DecidableEq

section ReadWrite

-- `monotime_coarse_stamp_units_to_approx_msec`, which depends on the platform
variable (toApproxMsec : UInt64 → UInt64)

/-- `rate_per_sec_to_rate_per_step`; `TICKS_PER_STEP` is 16. -/
def ratePerSecToRatePerStep (rate : UInt32) : UInt32 :=
  let units := rate.toUInt64 * 16
  let val := (toApproxMsec units / 1000).toUInt32
  if val ≠ 0 then val else 1

/-- `token_bucket_rw_adjust` -/
def tokenBucketRwAdjust (b : TokenBucketRw) (rate burst : UInt32) : TokenBucketRw :=
  let cfg := tokenBucketCfgInit (ratePerSecToRatePerStep toApproxMsec rate) burst
  { b with
    cfg
    readBucket := tokenBucketRawAdjust b.readBucket cfg
    writeBucket := tokenBucketRawAdjust b.writeBucket cfg }

/-- `token_bucket_rw_reset` -/
def tokenBucketRwReset (b : TokenBucketRw) (nowTsStamp : UInt32) : TokenBucketRw :=
  { b with
    readBucket := tokenBucketRawReset b.cfg
    writeBucket := tokenBucketRawReset b.cfg
    lastRefilledAtTimestamp := nowTsStamp }

/-- `token_bucket_rw_init` -/
def tokenBucketRwInit (rate burst nowTsStamp : UInt32) : TokenBucketRw :=
  let zeros : TokenBucketRw :=
    { cfg := ⟨0, 0⟩, readBucket := ⟨0⟩, writeBucket := ⟨0⟩, lastRefilledAtTimestamp := 0 }
  tokenBucketRwReset (tokenBucketRwAdjust toApproxMsec zeros rate burst) nowTsStamp

end ReadWrite

/-- `TB_READ` and `TB_WRITE` in one mask. -/
def tbFlags (read write : Bool) : ℕ := (if read then 1 else 0) + if write then 2 else 0

/-- `elapsed_ticks` of `token_bucket_rw_refill` -/
def elapsedTicks (b : TokenBucketRw) (nowTsStamp : UInt32) : UInt32 :=
  nowTsStamp - b.lastRefilledAtTimestamp

/-- `token_bucket_rw_refill`: the flags and the buckets. -/
def tokenBucketRwRefill (b : TokenBucketRw) (nowTsStamp : UInt32) : ℕ × TokenBucketRw :=
  let elapsed := elapsedTicks b nowTsStamp
  if elapsed ≤ 4294967295 / 4 then
    let elapsedSteps := elapsed / 16
    if elapsedSteps = 0 then (0, b)
    else
      let read := tokenBucketRawRefillSteps b.readBucket b.cfg elapsedSteps
      let write := tokenBucketRawRefillSteps b.writeBucket b.cfg elapsedSteps
      (tbFlags read.1 write.1,
        { b with
          readBucket := read.2
          writeBucket := write.2
          lastRefilledAtTimestamp := nowTsStamp })
  else (0, { b with lastRefilledAtTimestamp := nowTsStamp })

/-- The steps that a call of `token_bucket_rw_refill` credits. -/
def creditedSteps (b : TokenBucketRw) (nowTsStamp : UInt32) : ℕ :=
  if elapsedTicks b nowTsStamp ≤ 4294967295 / 4 then (elapsedTicks b nowTsStamp / 16).toNat else 0

/-- `token_bucket_rw_dec_read` -/
def tokenBucketRwDecRead (b : TokenBucketRw) (n : Int64) : Bool × TokenBucketRw :=
  let read := tokenBucketRawDec b.readBucket n
  (read.1, { b with readBucket := read.2 })

/-- `token_bucket_rw_dec_write` -/
def tokenBucketRwDecWrite (b : TokenBucketRw) (n : Int64) : Bool × TokenBucketRw :=
  let write := tokenBucketRawDec b.writeBucket n
  (write.1, { b with writeBucket := write.2 })

/-- `token_bucket_rw_dec` -/
def tokenBucketRwDec (b : TokenBucketRw) (nRead nWritten : Int64) : ℕ × TokenBucketRw :=
  let read := tokenBucketRwDecRead b nRead
  let write := tokenBucketRwDecWrite read.2 nWritten
  (tbFlags read.1 write.1, write.2)

/-! ## The level of one bucket -/

section Level

variable {b : TokenBucketRaw} {cfg : TokenBucketCfg}

/-- **Refilling is exact.** -/
theorem refillSteps_level (hrate : 0 < cfg.rate) (hlevel : b.bucket ≤ cfg.burst)
    (elapsed : UInt32) : (tokenBucketRawRefillSteps b cfg elapsed).2.bucket.toInt
      = min cfg.burst.toInt (b.bucket.toInt + cfg.rate.toNat * elapsed.toNat) := by
  rw [Int32.le_iff_toInt_le] at hlevel
  replace hrate : 0 < cfg.rate.toNat := UInt32.lt_iff_toNat_lt.mp hrate
  have hgap := toNat_sub_toUInt64 hlevel
  have hburst := Int32.toInt_lt cfg.burst
  have hbucket := Int32.le_toInt b.bucket
  unfold tokenBucketRawRefillSteps
  dsimp only
  have hdiv : (elapsed.toUInt64 > (cfg.burst.toInt64.toUInt64 - b.bucket.toInt64.toUInt64)
      / cfg.rate.toUInt64) ↔ (cfg.burst.toInt64.toUInt64 - b.bucket.toInt64.toUInt64).toNat
        < elapsed.toNat * cfg.rate.toNat := by
    rw [gt_iff_lt, UInt64.lt_iff_toNat_lt, UInt64.toNat_div, UInt32.toNat_toUInt64,
      UInt32.toNat_toUInt64, Nat.div_lt_iff_lt_mul hrate]
  by_cases hfull : elapsed.toUInt64 > (cfg.burst.toInt64.toUInt64 - b.bucket.toInt64.toUInt64)
      / cfg.rate.toUInt64
  · rw [if_pos hfull]
    rw [hdiv] at hfull
    rw [min_eq_left]
    have hfull' : ((cfg.burst.toInt64.toUInt64 - b.bucket.toInt64.toUInt64).toNat : ℤ)
        < elapsed.toNat * cfg.rate.toNat := by exact_mod_cast hfull
    rw [hgap] at hfull'
    linarith
  · rw [if_neg hfull]
    rw [hdiv, not_lt] at hfull
    have hfull' : (elapsed.toNat * cfg.rate.toNat : ℤ)
        ≤ ((cfg.burst.toInt64.toUInt64 - b.bucket.toInt64.toUInt64).toNat : ℤ) := by
      exact_mod_cast hfull
    rw [hgap] at hfull'
    -- the product is at most the gap, which is less than 2^32
    have hproduct : ((cfg.rate * elapsed).toNat : ℤ) = cfg.rate.toNat * elapsed.toNat := by
      have hlt : cfg.rate.toNat * elapsed.toNat < 2 ^ 32 := by
        zify
        linarith
      rw [UInt32.toNat_mul, Nat.mod_eq_of_lt hlt, Nat.cast_mul]
    rw [toInt_add_toInt32, hproduct, min_eq_right]
    · linarith
    · rw [hproduct]
      linarith

theorem refillSteps_le (hrate : 0 < cfg.rate) (hlevel : b.bucket ≤ cfg.burst) (elapsed : UInt32) :
    (tokenBucketRawRefillSteps b cfg elapsed).2.bucket ≤ cfg.burst := by
  rw [Int32.le_iff_toInt_le, refillSteps_level hrate hlevel]
  exact min_le_left _ _

/-- Refilling twice. -/
theorem refillSteps_add (hrate : 0 < cfg.rate) (hlevel : b.bucket ≤ cfg.burst) {x y : UInt32}
    (hxy : x.toNat + y.toNat < 2 ^ 32) :
    (tokenBucketRawRefillSteps (tokenBucketRawRefillSteps b cfg x).2 cfg y).2
      = (tokenBucketRawRefillSteps b cfg (x + y)).2 := by
  have hsum : (x + y).toNat = x.toNat + y.toNat := by
    rw [UInt32.toNat_add, Nat.mod_eq_of_lt hxy]
  have heq : (tokenBucketRawRefillSteps (tokenBucketRawRefillSteps b cfg x).2 cfg y).2.bucket.toInt
      = (tokenBucketRawRefillSteps b cfg (x + y)).2.bucket.toInt := by
    have hy : (0 : ℤ) ≤ cfg.rate.toNat * y.toNat := by positivity
    rw [refillSteps_level hrate (refillSteps_le hrate hlevel x), refillSteps_level hrate hlevel,
      refillSteps_level hrate hlevel, hsum, Nat.cast_add, mul_add]
    omega
  exact congrArg TokenBucketRaw.mk (Int32.toInt_inj.mp heq)

/-- Taking out tokens, as long as the level stays a number of 32 bits. -/
theorem dec_le (hlevel : b.bucket ≤ cfg.burst) {n : Int64}
    (hrange : 0 ≤ n → -2 ^ 31 ≤ b.bucket.toInt - n.toInt) :
    (tokenBucketRawDec b n).2.bucket ≤ cfg.burst := by
  unfold tokenBucketRawDec
  split
  · exact hlevel
  · next hneg =>
    rw [Int64.not_lt] at hneg
    have hlow := hrange hneg
    rw [Int64.le_iff_toInt_le] at hneg
    have hzero : (0 : Int64).toInt = 0 := by decide
    have hbucket := Int32.toInt_lt b.bucket
    rw [Int32.le_iff_toInt_le] at hlevel ⊢
    dsimp only
    rw [toInt_sub_toInt32 hlow (by omega)]
    omega

end Level

/-! ## Runs -/

/-- The calls at the ticks since `start`: the buckets, the steps that were credited, and the ticks
of the last call of `token_bucket_rw_refill`. The stamps may wrap; the ticks are at most
`UINT32_MAX / 4`, and the levels stay numbers of 32 bits. -/
inductive TokenRun (init : TokenBucketRw) (start : UInt32) : TokenBucketRw → ℕ → ℕ → Prop
  | init : TokenRun init start init 0 0
  | refill {b : TokenBucketRw} {steps ticks : ℕ} (hrun : TokenRun init start b steps ticks)
    {now : ℕ} (hnow : ticks ≤ now) (hspan : now ≤ 4294967295 / 4) :
    TokenRun init start (tokenBucketRwRefill b (start + UInt32.ofNat now)).2
      (steps + creditedSteps b (start + UInt32.ofNat now)) now
  | decRead {b : TokenBucketRw} {steps ticks : ℕ} (hrun : TokenRun init start b steps ticks)
    {n : Int64} (hread : 0 ≤ n → -2 ^ 31 ≤ b.readBucket.bucket.toInt - n.toInt) :
    TokenRun init start (tokenBucketRwDecRead b n).2 steps ticks
  | decWrite {b : TokenBucketRw} {steps ticks : ℕ} (hrun : TokenRun init start b steps ticks)
    {n : Int64} (hwrite : 0 ≤ n → -2 ^ 31 ≤ b.writeBucket.bucket.toInt - n.toInt) :
    TokenRun init start (tokenBucketRwDecWrite b n).2 steps ticks
  | dec {b : TokenBucketRw} {steps ticks : ℕ} (hrun : TokenRun init start b steps ticks)
    {nRead nWritten : Int64} (hread : 0 ≤ nRead → -2 ^ 31 ≤ b.readBucket.bucket.toInt - nRead.toInt)
    (hwrite : 0 ≤ nWritten → -2 ^ 31 ≤ b.writeBucket.bucket.toInt - nWritten.toInt) :
    TokenRun init start (tokenBucketRwDec b nRead nWritten).2 steps ticks

section Runs

variable {init b : TokenBucketRw} {start : UInt32} {steps ticks : ℕ}

/-- The levels are not above the burst. -/
structure Bounded (b : TokenBucketRw) : Prop where
  rate : 0 < b.cfg.rate
  read : b.readBucket.bucket ≤ b.cfg.burst
  write : b.writeBucket.bucket ≤ b.cfg.burst

theorem tokenBucketRwInit_bounded (toApproxMsec : UInt64 → UInt64) (rate burst now : UInt32) :
    Bounded (tokenBucketRwInit toApproxMsec rate burst now) where
  rate := by
    change 0 < ratePerSecToRatePerStep toApproxMsec rate
    unfold ratePerSecToRatePerStep
    dsimp only
    split
    · next hval => exact UInt32.pos_iff_ne_zero.mpr hval
    · decide
  read := Int32.le_refl _
  write := Int32.le_refl _

/-- The time between two stamps, although they wrap. -/
theorem elapsedTicks_of_stamps {last now : ℕ} (hle : last ≤ now) (hspan : now ≤ 4294967295 / 4)
    (hlast : b.lastRefilledAtTimestamp = start + UInt32.ofNat last) :
    (elapsedTicks b (start + UInt32.ofNat now)).toNat = now - last := by
  have hstart := UInt32.toNat_lt start
  unfold elapsedTicks
  rw [hlast, UInt32.toNat_sub, UInt32.toNat_add, UInt32.toNat_add, UInt32.toNat_ofNat',
    UInt32.toNat_ofNat']
  omega

/-- What a call of `token_bucket_rw_refill` does: nothing within a step, and else the steps are
credited to both buckets and the time is moved. -/
theorem tokenBucketRwRefill_cases {last now : ℕ} (hle : last ≤ now)
    (hspan : now ≤ 4294967295 / 4)
    (hlast : b.lastRefilledAtTimestamp = start + UInt32.ofNat last) :
    (now - last < 16 ∧ creditedSteps b (start + UInt32.ofNat now) = 0
      ∧ (tokenBucketRwRefill b (start + UInt32.ofNat now)).2 = b)
    ∨ (16 ≤ now - last ∧ creditedSteps b (start + UInt32.ofNat now) = (now - last) / 16
      ∧ ∃ elapsed : UInt32, elapsed.toNat = (now - last) / 16
        ∧ (tokenBucketRwRefill b (start + UInt32.ofNat now)).2
          = { b with
              readBucket := (tokenBucketRawRefillSteps b.readBucket b.cfg elapsed).2
              writeBucket := (tokenBucketRawRefillSteps b.writeBucket b.cfg elapsed).2
              lastRefilledAtTimestamp := start + UInt32.ofNat now }) := by
  have hticks := elapsedTicks_of_stamps hle hspan hlast
  have hjump : elapsedTicks b (start + UInt32.ofNat now) ≤ 4294967295 / 4 := by
    rw [UInt32.le_iff_toNat_le, hticks]
    exact (Nat.sub_le now last).trans hspan
  have hsteps : (elapsedTicks b (start + UInt32.ofNat now) / 16).toNat = (now - last) / 16 := by
    rw [UInt32.toNat_div, hticks]
    rfl
  unfold creditedSteps tokenBucketRwRefill
  dsimp only
  rw [if_pos hjump, if_pos hjump, hsteps]
  by_cases hzero : elapsedTicks b (start + UInt32.ofNat now) / 16 = 0
  · rw [if_pos hzero]
    rw [hzero] at hsteps
    have hzero' : (0 : UInt32).toNat = 0 := rfl
    exact .inl ⟨by omega, by omega, rfl⟩
  · rw [if_neg hzero]
    have hne : (now - last) / 16 ≠ 0 := by
      intro heq
      rw [heq] at hsteps
      exact hzero (UInt32.toNat_inj.mp hsteps)
    exact .inr ⟨by omega, rfl, _, hsteps, rfl⟩

/-- What holds after every call: the ticks that were credited are those up to `last`, less what was
dropped. -/
structure Conforming (init : TokenBucketRw) (start : UInt32) (b : TokenBucketRw)
    (steps ticks : ℕ) : Prop where
  cfg : b.cfg = init.cfg
  bounded : Bounded b
  credited : ∃ last, b.lastRefilledAtTimestamp = start + UInt32.ofNat last
    ∧ last ≤ ticks ∧ ticks < last + 16 ∧ 16 * steps ≤ last ∧ last ≤ 31 * steps

/-- A call within a step leaves the buckets, and one after it drops fewer ticks than it credits. -/
theorem Conforming.refill (h : Conforming init start b steps ticks) {now : ℕ} (hnow : ticks ≤ now)
    (hspan : now ≤ 4294967295 / 4) :
    Conforming init start (tokenBucketRwRefill b (start + UInt32.ofNat now)).2
      (steps + creditedSteps b (start + UInt32.ofNat now)) now := by
  obtain ⟨hcfg, hbounded, last, hlast, hle, hlt, hlow, hhigh⟩ := h
  obtain ⟨hwithin, hcredited, heq⟩ | ⟨hafter, hcredited, elapsed, -, heq⟩ :=
    tokenBucketRwRefill_cases (b := b) (hle.trans hnow) hspan hlast
  · rw [heq, hcredited]
    exact ⟨hcfg, hbounded, last, hlast, by omega, by omega, by omega, by omega⟩
  · rw [heq, hcredited]
    exact ⟨hcfg,
      ⟨hbounded.rate, refillSteps_le hbounded.rate hbounded.read elapsed,
        refillSteps_le hbounded.rate hbounded.write elapsed⟩,
      now, rfl, by omega, by omega, by omega, by omega⟩

/-- **After every call.** -/
theorem TokenRun.conforming (hrun : TokenRun init start b steps ticks) (hbounded : Bounded init)
    (hstart : init.lastRefilledAtTimestamp = start) : Conforming init start b steps ticks := by
  induction hrun with
  | init =>
    exact ⟨rfl, hbounded, 0, by rw [hstart]; simp, le_rfl, by omega, by omega, by omega⟩
  | refill hrun hnow hspan ih => exact ih.refill hnow hspan
  | decRead hrun hread ih =>
    exact ⟨ih.cfg, ⟨ih.bounded.rate, dec_le ih.bounded.read hread, ih.bounded.write⟩, ih.credited⟩
  | decWrite hrun hwrite ih =>
    exact ⟨ih.cfg, ⟨ih.bounded.rate, ih.bounded.read, dec_le ih.bounded.write hwrite⟩, ih.credited⟩
  | dec hrun hread hwrite ih =>
    exact ⟨ih.cfg, ⟨ih.bounded.rate, dec_le ih.bounded.read hread,
      dec_le ih.bounded.write hwrite⟩, ih.credited⟩

/-- A call credits its steps to both levels. -/
theorem Conforming.refill_levels (h : Conforming init start b steps ticks) {now : ℕ}
    (hnow : ticks ≤ now) (hspan : now ≤ 4294967295 / 4) :
    (tokenBucketRwRefill b (start + UInt32.ofNat now)).2.readBucket.bucket.toInt
        = min b.cfg.burst.toInt (b.readBucket.bucket.toInt
          + b.cfg.rate.toNat * creditedSteps b (start + UInt32.ofNat now))
      ∧ (tokenBucketRwRefill b (start + UInt32.ofNat now)).2.writeBucket.bucket.toInt
        = min b.cfg.burst.toInt (b.writeBucket.bucket.toInt
          + b.cfg.rate.toNat * creditedSteps b (start + UInt32.ofNat now)) := by
  obtain ⟨-, hbounded, last, hlast, hle, -, -, -⟩ := h
  obtain ⟨-, hcredited, heq⟩ | ⟨-, hcredited, elapsed, helapsed, heq⟩ :=
    tokenBucketRwRefill_cases (b := b) (hle.trans hnow) hspan hlast
  · have hread := Int32.le_iff_toInt_le.mp hbounded.read
    have hwrite := Int32.le_iff_toInt_le.mp hbounded.write
    rw [heq, hcredited]
    constructor <;> simp only [Nat.cast_zero, mul_zero, add_zero] <;> omega
  · rw [heq, hcredited, ← helapsed]
    exact ⟨refillSteps_level hbounded.rate hbounded.read elapsed,
      refillSteps_level hbounded.rate hbounded.write elapsed⟩

end Runs

/-- **Token buckets refill exactly and conform to their rate.** After any calls no level is above the
burst, the ticks are at least those of the steps credited, and less than twice those and one step
more; and a call adds to both levels what the rate gives for the steps it credits. -/
theorem token_bucket_conforms :
    (∀ (b : TokenBucketRaw) (cfg : TokenBucketCfg), 0 < cfg.rate → b.bucket ≤ cfg.burst →
      (∀ elapsed : UInt32, (tokenBucketRawRefillSteps b cfg elapsed).2.bucket.toInt
        = min cfg.burst.toInt (b.bucket.toInt + cfg.rate.toNat * elapsed.toNat))
      ∧ ∀ x y : UInt32, x.toNat + y.toNat < 2 ^ 32 →
        (tokenBucketRawRefillSteps (tokenBucketRawRefillSteps b cfg x).2 cfg y).2
          = (tokenBucketRawRefillSteps b cfg (x + y)).2)
    ∧ ∀ (toApproxMsec : UInt64 → UInt64) (rate burst start : UInt32) (b : TokenBucketRw)
        (steps ticks : ℕ),
      TokenRun (tokenBucketRwInit toApproxMsec rate burst start) start b steps ticks →
      b.readBucket.bucket ≤ b.cfg.burst ∧ b.writeBucket.bucket ≤ b.cfg.burst
      ∧ steps * 16 ≤ ticks ∧ ticks < 2 * steps * 16 + 16
      ∧ ∀ now, ticks ≤ now → now ≤ 4294967295 / 4 →
        (tokenBucketRwRefill b (start + UInt32.ofNat now)).2.readBucket.bucket.toInt
          = min b.cfg.burst.toInt (b.readBucket.bucket.toInt
            + b.cfg.rate.toNat * creditedSteps b (start + UInt32.ofNat now))
        ∧ (tokenBucketRwRefill b (start + UInt32.ofNat now)).2.writeBucket.bucket.toInt
          = min b.cfg.burst.toInt (b.writeBucket.bucket.toInt
            + b.cfg.rate.toNat * creditedSteps b (start + UInt32.ofNat now)) := by
  constructor
  · intro b cfg hrate hlevel
    exact ⟨refillSteps_level hrate hlevel, fun x y hxy => refillSteps_add hrate hlevel hxy⟩
  · intro toApproxMsec rate burst start b steps ticks hrun
    have hconforming := hrun.conforming (tokenBucketRwInit_bounded toApproxMsec rate burst start) rfl
    obtain ⟨last, -, hle, hlt, hlow, hhigh⟩ := hconforming.credited
    exact ⟨hconforming.bounded.read, hconforming.bounded.write, by omega, by omega,
      fun now hnow hspan => hconforming.refill_levels hnow hspan⟩

/-- A full second and a half step after the start, with a stamp that wraps. -/
theorem token_bucket_conforms_wrapped :
    ∃ b, TokenRun (tokenBucketRwInit (fun units => units * 1000 / 953) 1000 5000 4294967000)
        4294967000 b 60 968
      ∧ b.lastRefilledAtTimestamp = 672 ∧ 60 * 16 ≤ 968 ∧ 968 < 2 * 60 * 16 + 16
      ∧ b.readBucket.bucket ≤ b.cfg.burst := by
  have hrun : TokenRun (tokenBucketRwInit (fun units => units * 1000 / 953) 1000 5000 4294967000)
      4294967000 _ _ 968 := TokenRun.init.refill (Nat.zero_le 968) (by decide)
  obtain ⟨hread, -, hlow, hhigh, -⟩ := token_bucket_conforms.2 _ _ _ _ _ _ _ hrun
  exact ⟨_, hrun, by decide, hlow, hhigh, hread⟩

end Dittor.Tor
