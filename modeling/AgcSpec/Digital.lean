/-
# The digital gain control

`DigitalAgc` and `WebRtcAgc_ProcessDigital` of `digital_agc/digital_agc.c`.
A 10 ms frame has ten sub-frames of 1 ms. Their peak energies drive a fast
and a slow envelope follower (the capacitors); the larger one is looked up in
the gain table and gives a gain for the end of each sub-frame. A gate lowers
the gains in the absence of speech, a loop lowers each of them until its
sub-frame cannot overload, and reductions are moved 1 ms ahead. The samples
are then scaled by a linear ramp from one gain to the next.

The flag of `processDigital` is about the computation of the gains and their
application. The near-end VAD runs first and is called for its value; its
arithmetic has a flag of its own (`processVad`).

A frame is a list of bands, a band the list of its samples; the gain follows
band 0. Within a sample the source goes over the bands first and over the
samples second; as the ramp does not depend on the samples, here every band
is scaled by itself.
-/
import AgcSpec.Vad
import AgcSpec.GainTable

namespace AgcSpec

open FixedPoint

/-! ### The state -/

/-- `kAgcModeUnchanged`, `kAgcModeAdaptiveAnalog`, `kAgcModeAdaptiveDigital`
and `kAgcModeFixedDigital`. -/
def kAgcModeUnchanged : Int := 0
def kAgcModeAdaptiveAnalog : Int := 1
def kAgcModeAdaptiveDigital : Int := 2
def kAgcModeFixedDigital : Int := 3

/-- `DigitalAgc`. -/
structure DigitalAgc where
  capacitorSlow : Int
  capacitorFast : Int
  gain : Int
  gainTable : List Int
  gatePrevious : Int
  agcMode : Int
  vadNearend : AgcVad
  vadFarend : AgcVad
deriving DecidableEq, Repr

/-- `WebRtcAgc_InitDigital`. The gain table is written by the configuration. -/
def initDigital (s : DigitalAgc) (agcMode : Int) : DigitalAgc :=
  { s with
    capacitorSlow := if agcMode = kAgcModeFixedDigital then 0 else 134217728
    capacitorFast := 0
    gain := 65536
    gatePrevious := 0
    agcMode := agcMode
    vadNearend := initVad
    vadFarend := initVad }

/-- `WebRtcAgc_AddFarendToDigital`. -/
def addFarendToDigital (s : DigitalAgc) (in_far : List Int) (nrSamples : Nat) : DigitalAgc :=
  { s with vadFarend := (processVad s.vadFarend in_far nrSamples).val }

/-! ### The envelope -/

/-- The samples of sub-frame `k`, of `L` samples. -/
def subframe (L k : Nat) (band : List Int) : List Int := (band.drop (k * L)).take L

/-- The largest squared sample. -/
def maxEnergy (max_nrg : Int) : List Int → Chk Int
  | [] => pure max_nrg
  | x :: xs => do
    let nrg ← ck32 (x * x)
    maxEnergy (if nrg > max_nrg then nrg else max_nrg) xs

/-- The peak energies of the ten sub-frames (`env`). -/
def envelope (L : Nat) (band : List Int) : Chk (List Int) :=
  (List.range 10).mapM fun k => maxEnergy 0 (subframe L k band)

/-- The decay factor of a voice activity: -65 in speech, 0 in its absence. -/
def speechDecay (logratio : Int) : Int :=
  if logratio > 1024 then -65 else if logratio < 0 then 0 else i16 ((0 - logratio) * 65 / 2 ^ 10)

/-- The decay factor of the slow follower, from the VAD. In the adaptive modes
it is 0 in long silence and for a low-level signal. -/
def decayFactor (s : DigitalAgc) (lowlevelSignal : Int) : Int :=
  let logratio :=
    if s.vadFarend.counter > 10
      then i16 ((3 * s.vadNearend.logRatio - s.vadFarend.logRatio) / 2 ^ 2)
    else s.vadNearend.logRatio
  let decay := speechDecay logratio
  if s.agcMode ≠ kAgcModeFixedDigital then
    let decay :=
      if s.vadNearend.stdLongTerm < 4000 then 0
      else if s.vadNearend.stdLongTerm < 8096 then
        i16 ((s.vadNearend.stdLongTerm - 4000) * decay / 2 ^ 12)
      else decay
    if lowlevelSignal ≠ 0 then 0 else decay
  else decay

/-- `AGC_SCALEDIFF32`: `C + A * B / 2^16`, both products signed. -/
def agcScaleDiff32 (A B C : Int) : Chk Int := do
  let hi ← ck32 (B / 2 ^ 16 * A)
  let s ← ck32 (C + hi)
  let lo ← ck32 (B % 2 ^ 16 * A)
  ck32 (s + lo / 2 ^ 16)

/-- The two envelope followers. -/
structure Capacitors where
  fast : Int
  slow : Int
deriving DecidableEq, Repr

/-- One sub-frame of the followers. -/
def Capacitors.follow (decay env : Int) (c : Capacitors) : Chk Capacitors := do
  let fast ← agcScaleDiff32 (-1000) c.fast c.fast
  let slow ←
    if env > c.slow then do
      let d ← ck32 (env - c.slow)
      agcScaleDiff32 500 d c.slow
    else agcScaleDiff32 decay c.slow c.slow
  pure ⟨if env > fast then env else fast, slow⟩

/-- `cur_level`: the larger of the two capacitors. -/
def Capacitors.curLevel (c : Capacitors) : Int := if c.fast > c.slow then c.fast else c.slow

/-! ### From a level to a gain -/

/-- `zeros`: the leading zeros of a level, 31 for 0. -/
def levelZeros (level : Int) : Int := if level = 0 then 31 else normU32 (u32 level)

/-- The bits of a level below its leading one, at the top of 31 bits. -/
def levelMantissa (level : Int) : Int := u32 (u32 level * 2 ^ (levelZeros level).toNat) % 2 ^ 31

/-- `frac`: the first 12 of these bits. -/
def levelFrac (level : Int) : Int := i16 (levelMantissa level / 2 ^ 19)

/-- The gain of a level, linear between two entries of the table. -/
def interpolateGain (gainTable : List Int) (level : Int) : Chk Int := do
  let a ← ckGet gainTable (levelZeros level - 1)
  let b ← ckGet gainTable (levelZeros level)
  let d ← ck32 (a - b)
  let t ← ck32 (d * levelFrac level)
  ck32 (b + t / 2 ^ 12)

/-- The gains at the ends of the sub-frames and the capacitors after them. -/
def levelGains (gainTable : List Int) (decay : Int) :
    Capacitors → List Int → Chk (Capacitors × List Int)
  | c, [] => pure (c, [])
  | c, env :: envs => do
    let c ← c.follow decay env
    let g ← interpolateGain gainTable c.curLevel
    let r ← levelGains gainTable decay c envs
    pure (r.1, g :: r.2)

/-! ### The gate -/

/-- The gate of the frame and the value it leaves in `gatePrevious`. The two
levels are compared on a logarithmic scale with 512 steps an octave. -/
def gateOf (c : Capacitors) (stdShortTerm gatePrevious : Int) : Int × Int :=
  let zeros := i16 (levelZeros c.curLevel * 2 ^ 9 - levelFrac c.curLevel / 2 ^ 3)
  let zeros_fast := i16 (levelZeros c.fast * 2 ^ 9)
  let zeros_fast := i16 (zeros_fast - i16 (levelMantissa c.fast / 2 ^ 22))
  let gate := i16 (1000 + zeros_fast - zeros - stdShortTerm)
  if gate < 0 then (gate, 0)
  else
    let gate := i16 ((gate + gatePrevious * 7) / 2 ^ 3)
    (gate, gate)

/-- `gain_adj`: the closed gate (2500 and above) takes 178/256, the open one 1. -/
def gainAdj (gate : Int) : Int := if gate < 2500 then (2500 - gate) / 2 ^ 5 else 0

/-- The gate's step on one gain, towards entry 0 of the table. -/
def gateGain (table0 gate g : Int) : Chk Int := do
  let d ← ck32 (g - table0)
  let t ←
    if d > 8388608 then ck32 (d / 2 ^ 8 * (178 + gainAdj gate))
    else do
      let p ← ck32 (d * (178 + gainAdj gate))
      pure (p / 2 ^ 8)
  ck32 (table0 + t)

/-- The gate on the gains of a frame. -/
def gateGains (table0 gate : Int) (gains : List Int) : Chk (List Int) :=
  if gate > 0 then gains.mapM (gateGain table0 gate) else pure gains

/-! ### The limiter -/

/-- `AGC_MUL32`: `A * B / 2^13`. -/
def agcMul32 (A B : Int) : Chk Int := do
  let hi ← ck32 (B / 2 ^ 13 * A)
  let lo ← ck32 (B % 2 ^ 13 * A)
  ck32 (hi + lo / 2 ^ 13)

/-- The shift that keeps the squared gain in 32 bits. -/
def limitShift (g : Int) : Int := if g > 47453132 then 16 - normW32 g else 10

/-- The loop's condition: a sample of energy `env` overloads with the gain `g`. -/
def overloads (env zeros g : Int) : Chk Bool := do
  let r ← ck32 (g / 2 ^ zeros.toNat + 1)
  let gain32 ← ck32 (r * r)
  let m ← agcMul32 (env / 2 ^ 12 + 1) gain32
  let limit ← shiftW32 32767 (2 * (1 - zeros + 10))
  pure (decide (m > limit))

/-- One turn of the loop: 253/256, or -0.1 dB. -/
def reduceGain (g : Int) : Chk Int :=
  if g > 8388607 then ck32 (g.tdiv 256 * 253)
  else do
    let p ← ck32 (g * 253)
    pure (p.tdiv 256)

/-- The limiting loop, with a bound on its turns. -/
def limitLoop (env zeros : Int) : Nat → Int → Chk (Option Int)
  | 0, _ => pure none
  | n + 1, g => do
    let b ← overloads env zeros g
    if b then do
      let g ← reduceGain g
      limitLoop env zeros n g
    else pure (some g)

/-- The loop's state is the gain, a 32-bit integer: after this many turns one
has come back. Not to be unrolled. -/
@[irreducible] def limitTurns : ℕ := 2 ^ 32

/-- The limiter on one gain; `none` if the loop never ends. -/
def limitGain (env g : Int) : Chk (Option Int) := limitLoop env (limitShift g) limitTurns g

/-- The limiter on the gains of a frame. -/
def limitGains : List Int → List Int → Chk (Option (List Int))
  | env :: envs, g :: gs => do
    let r ← limitGain env g
    match r with
    | none => pure none
    | some g => do
      let rs ← limitGains envs gs
      pure (rs.map (g :: ·))
  | _, _ => pure (some [])

/-- Gain reductions are done 1 ms earlier than gain increases. -/
def reduceEarlier : List Int → List Int
  | a :: b :: rest => (if a > b then b else a) :: reduceEarlier (b :: rest)
  | l => l

/-! ### The gains of a frame -/

/-- What the gain computation of a frame leaves: the capacitors, the gate's
memory, and the eleven gains at the start and the ends of the sub-frames. -/
structure GainPlan where
  capacitors : Capacitors
  gatePrevious : Int
  gains : List Int
deriving DecidableEq, Repr

/-- The gain computation of a frame, after the VAD; `none` if the limiter
does not end. -/
def planGains (s : DigitalAgc) (L : Nat) (lowlevelSignal : Int) (band : List Int) :
    Chk (Option GainPlan) := do
  let env ← envelope L band
  let r ← levelGains s.gainTable (decayFactor s lowlevelSignal) ⟨s.capacitorFast,
    s.capacitorSlow⟩ env
  let gate := gateOf r.1 s.vadNearend.stdShortTerm s.gatePrevious
  let gains ← gateGains (s.gainTable.getD 0 0) gate.1 r.2
  let gains ← limitGains env gains
  pure (gains.map fun gs => ⟨r.1, gate.2, s.gain :: reduceEarlier gs⟩)

/-! ### Applying the gains -/

/-- A sample of the first sub-frame, in 32 bits: a product that keeps 7 bits
less decides on saturation. -/
def sampleFirst (gain32 x : Int) : Chk Int := do
  let a ← ck32 (gain32 + 127)
  let t ← ck32 (x * (a / 2 ^ 7))
  if t / 2 ^ 16 > 4095 then pure 32767
  else if t / 2 ^ 16 < -4096 then pure (-32768)
  else do
    let t ← ck32 (x * (gain32 / 2 ^ 4))
    pure (i16 (t / 2 ^ 16))

/-- A sample of the other sub-frames, in 64 bits. -/
def sampleRest (gain32 x : Int) : Chk Int := pure (sat16 (x * (gain32 / 2 ^ 4) / 2 ^ 16))

/-- The samples of a sub-frame with the gain going up by `delta` a sample. -/
def applyRamp (sample : Int → Int → Chk Int) (delta : Int) : Int → List Int → Chk (List Int)
  | _, [] => pure []
  | gain32, x :: xs => do
    let y ← sample gain32 x
    let g ← ck32 (gain32 + delta)
    let ys ← applyRamp sample delta g xs
    pure (y :: ys)

/-- A sub-frame between the gains `g0` and `g1`; `2^L2` samples. -/
def applySubframe (sample : Int → Int → Chk Int) (L2 : Nat) (g0 g1 : Int) (xs : List Int) :
    Chk (List Int) := do
  let d ← ck32 (g1 - g0)
  let delta ← ck32 (d * 2 ^ (4 - L2))
  let gain32 ← ck32 (g0 * 2 ^ 4)
  applyRamp sample delta gain32 xs

/-- A band. The first sub-frame is handled separately. -/
def applyGains (L L2 : Nat) (gains band : List Int) : Chk (List Int) := do
  let parts ← (List.range 10).mapM fun k =>
    applySubframe (if k = 0 then sampleFirst else sampleRest) L2 (gains.getD k 0)
      (gains.getD (k + 1) 0) (subframe L k band)
  pure (parts.flatten ++ band.drop (10 * L))

/-! ### The frame -/

/-- What `WebRtcAgc_ProcessDigital` does: it returns -1 for an unsupported
rate, or 0 with the new state and the scaled bands, or it does not return. -/
inductive DigitalResult where
  | never
  | error
  | done (agc : DigitalAgc) (out : List (List Int))
deriving DecidableEq, Repr

/-- The samples of a sub-frame, and their logarithm. -/
def subframeLength (FS : Int) : Option (Nat × Nat) :=
  if FS = 8000 then some (8, 3)
  else if FS = 16000 ∨ FS = 32000 ∨ FS = 48000 then some (16, 4)
  else none

/-- The near-end VAD of a frame. -/
def DigitalAgc.nearend (s : DigitalAgc) (L : Nat) (band : List Int) : DigitalAgc :=
  { s with vadNearend := (processVad s.vadNearend band (L * 10)).val }

/-- The state a frame leaves: the last gain is where the next frame starts. -/
def DigitalAgc.commit (s : DigitalAgc) (p : GainPlan) : DigitalAgc :=
  { s with
    capacitorFast := p.capacitors.fast
    capacitorSlow := p.capacitors.slow
    gatePrevious := p.gatePrevious
    gain := p.gains.getD 10 0 }

/-- `WebRtcAgc_ProcessDigital`. -/
def processDigital (s : DigitalAgc) (in_near : List (List Int)) (FS lowlevelSignal : Int) :
    Chk DigitalResult :=
  match subframeLength FS with
  | none => pure .error
  | some (L, L2) => do
    let s := s.nearend L (in_near.headD [])
    let p ← planGains s L lowlevelSignal (in_near.headD [])
    match p with
    | none => pure .never
    | some p => do
      let out ← in_near.mapM (applyGains L L2 p.gains)
      pure (.done (s.commit p) out)

end AgcSpec
