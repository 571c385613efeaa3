/-
# Block resamplers

`common_audio/resample_fractional.c`, `resample_48khz.c` and `resample.c`: the
fractional filters by tables of coefficients and the six functions that
resample a block of 10 ms with them, between 48 and 16 kHz, 22 and 16 kHz, and
22 and 8 kHz. The source works in one scratch array and copies the last eight
samples of a block in front of the next; the outputs of a fractional filter
never overtake the inputs it still needs there, so lists do. Each function
gives as many samples as its name says, whatever it is given
(`length_block48To16` and so on).
-/
import AgcSpec.ResampleBy2

namespace AgcSpec

open FixedPoint Streams

/-! ### Fractional filters -/

def kCoefficients48To32 : List (List Int) :=
  [[778, -2050, 1087, 23285, 12903, -3783, 441, 222],
   [222, 441, -3783, 12903, 23285, 1087, -2050, 778]]

def kCoefficients32To24 : List (List Int) :=
  [[767, -2362, 2434, 24406, 10620, -3838, 721, 90],
   [386, -381, -2646, 19062, 19062, -2646, -381, 386],
   [90, 721, -3838, 10620, 24406, 2434, -2362, 767]]

def kCoefficients44To32 : List (List Int) :=
  [[117, -669, 2245, -6183, 26267, 13529, -3245, 845, -138],
   [-101, 612, -2283, 8532, 29790, -5138, 1789, -524, 91],
   [50, -292, 1016, -3064, 32010, 3933, -1147, 315, -53],
   [-156, 974, -3863, 18603, 21691, -6246, 2353, -712, 126]]

def kCoefficients32To22 : List (List Int) :=
  [[127, -712, 2359, -6333, 23456, 16775, -3695, 945, -154],
   [-39, 230, -830, 2785, 32366, -2324, 760, -218, 38],
   [117, -663, 2222, -6133, 26634, 13070, -3174, 831, -137],
   [-77, 457, -1677, 5958, 31175, -4136, 1405, -408, 71],
   [98, -560, 1900, -5406, 29240, 9423, -2480, 663, -110]]

/-- The sum of products of a row of coefficients with samples, from `1 << 14`. -/
def innerProduct (coef xs : List Int) : Chk Int :=
  (coef.zip xs).foldlM (fun tmp p => do
    let m ← ck32 (p.1 * p.2)
    ck32 (tmp + m)) (2 ^ 14)

/-- The samples from `i` on backwards. -/
def backFrom (xs : List Int) (i : ℕ) : List Int := (xs.take (i + 1)).reverse

/-- `WebRtcSpl_ResampDotProduct` and `WebRtcSpl_DotProdIntToInt`. -/
def dotProducts (in1 in2 coef : List Int) : Chk (Int × Int) := do
  let out1 ← innerProduct coef in1
  let out2 ← innerProduct coef in2
  pure (out1, out2)

/-- `K` rounds of a filter that moves on by `size` samples. -/
def rounds (size : ℕ) (f : List Int → Chk (List Int)) : ℕ → List Int → Chk (List Int)
  | 0, _ => pure []
  | K + 1, xs => do
    let out ← f xs
    let rest ← rounds size f K (xs.drop size)
    pure (out ++ rest)

theorem length_rounds (size : ℕ) {f : List Int → Chk (List Int)} {q : ℕ}
    (hf : ∀ xs, (f xs).val.length = q) :
    ∀ (K : ℕ) (xs : List Int), (rounds size f K xs).val.length = K * q
  | 0, _ => by simp [rounds]
  | K + 1, xs => by
    simp only [rounds, Chk.val_bind, Chk.val_pure, List.length_append, hf, length_rounds size hf K]
    ring

/-- `WebRtcSpl_Resample48khzTo32khz`. -/
def resample48khzTo32khz (xs : List Int) (K : ℕ) : Chk (List Int) :=
  rounds 3 (fun xs => do
    let a ← innerProduct (kCoefficients48To32.getD 0 []) xs
    let b ← innerProduct (kCoefficients48To32.getD 1 []) (xs.drop 1)
    pure [a, b]) K xs

/-- `WebRtcSpl_Resample32khzTo24khz`. -/
def resample32khzTo24khz (xs : List Int) (K : ℕ) : Chk (List Int) :=
  rounds 4 (fun xs => do
    let a ← innerProduct (kCoefficients32To24.getD 0 []) xs
    let b ← innerProduct (kCoefficients32To24.getD 1 []) (xs.drop 1)
    let c ← innerProduct (kCoefficients32To24.getD 2 []) (xs.drop 2)
    pure [a, b, c]) K xs

/-- `WebRtcSpl_Resample44khzTo32khz`. -/
def resample44khzTo32khz (xs : List Int) (K : ℕ) : Chk (List Int) :=
  rounds 11 (fun xs => do
    let a ← shiftIn (xs.getD 3 0)
    let m ← innerProduct (kCoefficients44To32.getD 3 []) (xs.drop 5)
    let p ← dotProducts xs (backFrom xs 17) (kCoefficients44To32.getD 0 [])
    let q ← dotProducts (xs.drop 2) (backFrom xs 15) (kCoefficients44To32.getD 1 [])
    let r ← dotProducts (xs.drop 3) (backFrom xs 14) (kCoefficients44To32.getD 2 [])
    pure [a, p.1, q.1, r.1, m, r.2, q.2, p.2]) K xs

/-- The eleven outputs of a round of the filters from 32 to 22 kHz. -/
def round32To22 (xs : List Int) : Chk (List Int) := do
  let a ← dotProducts xs (backFrom xs 22) (kCoefficients32To22.getD 0 [])
  let b ← dotProducts (xs.drop 2) (backFrom xs 20) (kCoefficients32To22.getD 1 [])
  let c ← dotProducts (xs.drop 3) (backFrom xs 19) (kCoefficients32To22.getD 2 [])
  let d ← dotProducts (xs.drop 5) (backFrom xs 17) (kCoefficients32To22.getD 3 [])
  let e ← dotProducts (xs.drop 6) (backFrom xs 16) (kCoefficients32To22.getD 4 [])
  pure [a.1, b.1, c.1, d.1, e.1, e.2, d.2, c.2, b.2, a.2]

/-- `WebRtcSpl_32khzTo22khzIntToInt`. -/
def resample32khzTo22khzIntToInt (xs : List Int) (K : ℕ) : Chk (List Int) :=
  rounds 16 (fun xs => do
    let first ← shiftIn (xs.getD 3 0)
    let rest ← round32To22 xs
    pure (first :: rest)) K xs

/-- `WebRtcSpl_32khzTo22khzIntToShort`: scaled down and saturated. -/
def resample32khzTo22khzIntToShort (xs : List Int) (K : ℕ) : Chk (List Int) :=
  rounds 16 (fun xs => do
    let rest ← round32To22 xs
    pure (sat16 (xs.getD 3 0) :: rest.map fun y => sat16 (y / 2 ^ 15))) K xs

theorem length_resample48khzTo32khz (xs : List Int) (K : ℕ) :
    (resample48khzTo32khz xs K).val.length = K * 2 := by
  rw [resample48khzTo32khz]
  exact length_rounds _ (q := 2) (fun _ => rfl) K xs

theorem length_resample32khzTo24khz (xs : List Int) (K : ℕ) :
    (resample32khzTo24khz xs K).val.length = K * 3 := by
  rw [resample32khzTo24khz]
  exact length_rounds _ (q := 3) (fun _ => rfl) K xs

theorem length_resample44khzTo32khz (xs : List Int) (K : ℕ) :
    (resample44khzTo32khz xs K).val.length = K * 8 := by
  rw [resample44khzTo32khz]
  exact length_rounds _ (q := 8) (fun _ => rfl) K xs

theorem length_resample32khzTo22khzIntToInt (xs : List Int) (K : ℕ) :
    (resample32khzTo22khzIntToInt xs K).val.length = K * 11 := by
  rw [resample32khzTo22khzIntToInt]
  exact length_rounds _ (q := 11) (fun _ => rfl) K xs

theorem length_resample32khzTo22khzIntToShort (xs : List Int) (K : ℕ) :
    (resample32khzTo22khzIntToShort xs K).val.length = K * 11 := by
  rw [resample32khzTo22khzIntToShort]
  exact length_rounds _ (q := 11) (fun _ => rfl) K xs

/-! ### 48 and 16 kHz -/

structure State48khzTo16khz where
  S_48_48 : LpState
  S_48_32 : List Int
  S_32_16 : By2State
deriving DecidableEq, Repr

def State48khzTo16khz.zero : State48khzTo16khz := ⟨.zero, List.replicate 8 0, .zero⟩

/-- `WebRtcSpl_Resample48khzTo16khz`, on 480 samples. -/
def resample48khzTo16khz (st : State48khzTo16khz) (xs : List Int) :
    Chk (List Int × State48khzTo16khz) := do
  let lp ← lpBy2ShortToInt xs st.S_48_48
  let tmp ← resample48khzTo32khz (st.S_48_32 ++ lp.1) 160
  let out ← downBy2IntToShort tmp st.S_32_16
  pure (out.1, ⟨lp.2, lp.1.drop 472, out.2⟩)

structure State16khzTo48khz where
  S_16_32 : By2State
  S_32_24 : List Int
  S_24_48 : By2State
deriving DecidableEq, Repr

def State16khzTo48khz.zero : State16khzTo48khz := ⟨.zero, List.replicate 8 0, .zero⟩

/-- `WebRtcSpl_Resample16khzTo48khz`, on 160 samples. -/
def resample16khzTo48khz (st : State16khzTo48khz) (xs : List Int) :
    Chk (List Int × State16khzTo48khz) := do
  let up ← upBy2ShortToInt xs st.S_16_32
  let tmp ← resample32khzTo24khz (st.S_32_24 ++ up.1) 80
  let out ← upBy2IntToShort tmp st.S_24_48
  pure (out.1, ⟨up.2, up.1.drop 312, out.2⟩)

/-! ### 22 and 16 kHz, 22 and 8 kHz

These go through a block in parts. -/

structure State22khzTo16khz where
  S_22_44 : By2State
  S_44_32 : List Int
  S_32_16 : By2State
deriving DecidableEq, Repr

def State22khzTo16khz.zero : State22khzTo16khz := ⟨.zero, List.replicate 8 0, .zero⟩

/-- One of the five parts of a block, 44 samples. -/
def part22khzTo16khz (st : State22khzTo16khz) (xs : List Int) :
    Chk (List Int × State22khzTo16khz) := do
  let up ← upBy2ShortToInt xs st.S_22_44
  let tmp ← resample44khzTo32khz (st.S_44_32 ++ up.1) 8
  let out ← downBy2IntToShort tmp st.S_32_16
  pure (out.1, ⟨up.2, up.1.drop 80, out.2⟩)

structure State16khzTo22khz where
  S_16_32 : By2State
  S_32_22 : List Int
deriving DecidableEq, Repr

def State16khzTo22khz.zero : State16khzTo22khz := ⟨.zero, List.replicate 8 0⟩

/-- One of the four parts of a block, 40 samples. -/
def part16khzTo22khz (st : State16khzTo22khz) (xs : List Int) :
    Chk (List Int × State16khzTo22khz) := do
  let up ← upBy2ShortToInt xs st.S_16_32
  let out ← resample32khzTo22khzIntToShort (st.S_32_22 ++ up.1) 5
  pure (out, ⟨up.2, up.1.drop 72⟩)

structure State22khzTo8khz where
  S_22_22 : LpState
  S_22_16 : List Int
  S_16_8 : By2State
deriving DecidableEq, Repr

def State22khzTo8khz.zero : State22khzTo8khz := ⟨.zero, List.replicate 8 0, .zero⟩

/-- One of the two parts of a block, 110 samples. -/
def part22khzTo8khz (st : State22khzTo8khz) (xs : List Int) :
    Chk (List Int × State22khzTo8khz) := do
  let lp ← lpBy2ShortToInt xs st.S_22_22
  let tmp ← resample44khzTo32khz (st.S_22_16 ++ lp.1) 10
  let out ← downBy2IntToShort tmp st.S_16_8
  pure (out.1, ⟨lp.2, lp.1.drop 102, out.2⟩)

structure State8khzTo22khz where
  S_8_16 : By2State
  S_16_11 : List Int
  S_11_22 : By2State
deriving DecidableEq, Repr

def State8khzTo22khz.zero : State8khzTo22khz := ⟨.zero, List.replicate 8 0, .zero⟩

/-- One of the two parts of a block, 40 samples. -/
def part8khzTo22khz (st : State8khzTo22khz) (xs : List Int) :
    Chk (List Int × State8khzTo22khz) := do
  let up ← upBy2ShortToInt xs st.S_8_16
  let tmp ← resample32khzTo22khzIntToInt (st.S_16_11 ++ up.1) 5
  let out ← upBy2IntToShort tmp st.S_11_22
  pure (out.1, ⟨up.2, up.1.drop 72, out.2⟩)

/-! ### As stages -/

/-- The values of a computation on a block, without the flags. -/
def stageOf {σ : Type} (f : σ → List Int → Chk (List Int × σ)) : Stage σ Int Int :=
  fun s xs => (f s xs).val

def block48To16 : Stage State48khzTo16khz Int Int := stageOf resample48khzTo16khz
def block16To48 : Stage State16khzTo48khz Int Int := stageOf resample16khzTo48khz

/-- `WebRtcSpl_Resample22khzTo16khz`, on 220 samples. -/
def block22To16 : Stage State22khzTo16khz Int Int := blocksN 44 (stageOf part22khzTo16khz) 5
/-- `WebRtcSpl_Resample16khzTo22khz`, on 160 samples. -/
def block16To22 : Stage State16khzTo22khz Int Int := blocksN 40 (stageOf part16khzTo22khz) 4
/-- `WebRtcSpl_Resample22khzTo8khz`, on 220 samples. -/
def block22To8 : Stage State22khzTo8khz Int Int := blocksN 110 (stageOf part22khzTo8khz) 2
/-- `WebRtcSpl_Resample8khzTo22khz`, on 80 samples. -/
def block8To22 : Stage State8khzTo22khz Int Int := blocksN 40 (stageOf part8khzTo22khz) 2

theorem length_block48To16 (st : State48khzTo16khz) (xs : List Int) :
    (block48To16 st xs).1.length = 160 := by
  simp only [block48To16, stageOf, resample48khzTo16khz, Chk.val_bind, Chk.val_pure,
    length_downBy2IntToShort, length_resample48khzTo32khz]

theorem length_block16To48 (st : State16khzTo48khz) (xs : List Int) :
    (block16To48 st xs).1.length = 480 := by
  simp only [block16To48, stageOf, resample16khzTo48khz, Chk.val_bind, Chk.val_pure,
    length_upBy2IntToShort, length_resample32khzTo24khz]

theorem length_block22To16 (st : State22khzTo16khz) {xs : List Int} (hxs : xs.length = 220) :
    (block22To16 st xs).1.length = 160 :=
  rate_blocksN (q := 32) (fun s xs _ => by
    simp only [stageOf, part22khzTo16khz, Chk.val_bind, Chk.val_pure, length_downBy2IntToShort,
      length_resample44khzTo32khz]) 5 st xs hxs

theorem length_block16To22 (st : State16khzTo22khz) {xs : List Int} (hxs : xs.length = 160) :
    (block16To22 st xs).1.length = 220 :=
  rate_blocksN (q := 55) (fun s xs _ => by
    simp only [stageOf, part16khzTo22khz, Chk.val_bind, Chk.val_pure,
      length_resample32khzTo22khzIntToShort]) 4 st xs hxs

theorem length_block22To8 (st : State22khzTo8khz) {xs : List Int} (hxs : xs.length = 220) :
    (block22To8 st xs).1.length = 80 :=
  rate_blocksN (q := 40) (fun s xs _ => by
    simp only [stageOf, part22khzTo8khz, Chk.val_bind, Chk.val_pure, length_downBy2IntToShort,
      length_resample44khzTo32khz]) 2 st xs hxs

theorem length_block8To22 (st : State8khzTo22khz) {xs : List Int} (hxs : xs.length = 80) :
    (block8To22 st xs).1.length = 220 :=
  rate_blocksN (q := 110) (fun s xs _ => by
    simp only [stageOf, part8khzTo22khz, Chk.val_bind, Chk.val_pure, length_upBy2IntToShort,
      length_resample32khzTo22khzIntToInt]) 2 st xs hxs

end AgcSpec
