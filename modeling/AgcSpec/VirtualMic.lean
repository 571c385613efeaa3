/-
# The gain of the virtual microphone

`WebRtcAgc_VirtualMic` scales band 0 by a gain that it looks up by an index
from 0 to 255: the upper half of the indices in a table of gains above 1, the
lower half in one of gains up to 1. A sample that saturates takes the index
down by one. There is no lower bound on the index in the loop, and none is
needed: once the gain is at most 1 nothing saturates (`virtualLoop_exact`), so
in every state the adaptive digital mode reaches the lookups are inside the
tables (`virtual_tables_safe`).

The lookup is written out before the loop and twice inside it, and the copies
differ: before the loop the gain of an index above 127 is entry `gainIdx - 128`,
inside it is entry `gainIdx - 127`. So the first sample that saturates takes
the index down and leaves the gain as it is (`next_eq_start`). The gain goes
down with every sample that saturates, and is one function of the index, only
for the frames in which no sample but the last saturates at all
(`lowered_iff`).
-/
import AgcSpec.AdaptiveLoop

namespace AgcSpec
namespace VirtualMic

open FixedPoint Runs Levels AdaptiveLoop

/-! ### The tables -/

theorem virtualGainStart_eq {idx : Int} (h : 0 ≤ idx ∧ idx ≤ 255) :
    virtualGainStart idx = pure (virtualGainStart idx).val := by
  refine Chk.eq_pure rfl ?_
  rw [virtualGainStart]
  split
  · exact decide_eq_true
      ⟨by omega, by rw [show kGainTableVirtualMic.length = 128 from rfl]; omega⟩
  · exact decide_eq_true
      ⟨by omega, by rw [show kSuppressionTableVirtualMic.length = 128 from rfl]; omega⟩

theorem virtualGainNext_eq {idx : Int} (h : 0 ≤ idx ∧ idx ≤ 254) :
    virtualGainNext idx = pure (virtualGainNext idx).val := by
  refine Chk.eq_pure rfl ?_
  rw [virtualGainNext]
  split
  · exact decide_eq_true
      ⟨by omega, by rw [show kGainTableVirtualMic.length = 128 from rfl]; omega⟩
  · exact decide_eq_true
      ⟨by omega, by rw [show kSuppressionTableVirtualMic.length = 128 from rfl]; omega⟩

/-- The loop reads the tables inside their bounds and takes the index no lower
than 126, or where it started. -/
theorem virtualLoop_exact : ∀ (xs : List Int) {idx gain : Int},
    (∀ x ∈ xs, InI16 x) → IdxInv idx gain → (virtualLoop idx gain xs).ok = true ∧
      min 126 idx ≤ (virtualLoop idx gain xs).val.1 ∧ (virtualLoop idx gain xs).val.1 ≤ idx
  | [], idx, gain, _, _ => ⟨rfl, min_le_right 126 idx, le_refl idx⟩
  | x :: xs, idx, gain, hx, h => by
    have hxs : ∀ y ∈ xs, InI16 y := fun y hy => hx y (List.mem_cons_of_mem _ hy)
    obtain ⟨hup, heq⟩ := virtualLoop_cons (hx x List.mem_cons_self) h xs
    rw [heq]
    split
    · rename_i hsat
      have hidx := h.index
      have h127 := hup hsat
      obtain ⟨hok, hlo, hhi⟩ := virtualLoop_exact xs hxs (idxInv_next ⟨h127, hidx.2⟩)
      rw [virtualGainNext_eq ⟨by omega, by omega⟩, pure_bind]
      exact ⟨by rw [Chk.ok_bind, hok]; rfl, by rw [Chk.val_bind, Chk.val_pure]; omega,
        by rw [Chk.val_bind, Chk.val_pure]; omega⟩
    · obtain ⟨hok, hlo, hhi⟩ := virtualLoop_exact xs hxs h
      exact ⟨by rw [Chk.ok_bind, hok]; rfl, hlo, hhi⟩

/-! ### In every state -/

/-- In every state of the adaptive digital mode, for every frame of 16-bit
samples and every level: the index starts between 0 and 255 and its lookup is
inside the tables; so are those of the loop, whose flag is up; after no number
of samples is the index below 126 or, if that is lower, its start; and the
samples of all bands are in the 16-bit range. -/
theorem virtual_tables_safe {mem s t : LegacyAgc} {minLevel maxLevel fs : Int}
    {ls : List (Op × Int)} (hinit : (init mem minLevel maxLevel kAgcModeAdaptiveDigital fs).val =
      (s, 0)) (hrun : Run Step s ls t)
    {in_near : List (List Int)} (hx : ∀ x ∈ in_near.headD [], InI16 x) (micLevelIn : Int) :
    (0 ≤ (virtualEntry t in_near micLevelIn).2 ∧
      (virtualEntry t in_near micLevelIn).2 ≤ 255) ∧ ∃ gain r,
        virtualGainStart (virtualEntry t in_near micLevelIn).2 = pure gain ∧
        virtualLoop (virtualEntry t in_near micLevelIn).2 gain (in_near.headD []) = pure r ∧
        (∀ n, min 126 (virtualEntry t in_near micLevelIn).2 ≤
          (virtualLoop (virtualEntry t in_near micLevelIn).2 gain
            ((in_near.headD []).take n)).val.1) ∧
        (∀ y ∈ r.2.1, InI16 y) ∧ ∀ band ∈ in_near.tail, ∀ y ∈ virtualBand r.2.2 band,
          InI16 y := by
  have hlow : lowestLevel kAgcModeAdaptiveDigital minLevel = 0 := if_pos rfl
  have hhigh : highestLevel kAgcModeAdaptiveDigital maxLevel = 255 := if_pos rfl
  obtain ⟨hinv, hmode⟩ :=
    hrun.invariant (I := fun t => LevelInv t ∧ t.agcMode = kAgcModeAdaptiveDigital)
    (levelInv_init (by rw [hlow, hhigh]; decide) hinit) fun _ _ _ h hs =>
      levelInv_step h ⟨hs, fun _ _ _ => rfl⟩
  have hidx := virtualEntry_index hinv hmode in_near micLevelIn
  generalize (virtualEntry t in_near micLevelIn).2 = start at hidx ⊢
  have hgain := idxInv_start hidx
  obtain ⟨hok, -, -⟩ := virtualLoop_exact _ hx hgain
  obtain ⟨-, -, hout⟩ := virtualLoop_spec _ hx hgain
  refine ⟨hidx, _, _, virtualGainStart_eq hidx, Chk.eq_pure rfl hok, fun n => ?_, hout,
    fun band _ y hy => ?_⟩
  · exact (virtualLoop_exact _ (fun x hm => hx x (List.mem_of_mem_take hm)) hgain).2.1
  · rw [virtualBand, List.mem_iff_getElem] at hy
    obtain ⟨i, hi, rfl⟩ := hy
    rw [List.getElem_zipWith]
    exact inI16_sat16 _

/-- The first frame of a new instance, at full scale. -/
theorem virtual_tables_safe_loud :
    (init (create .cleared) 0 255 kAgcModeAdaptiveDigital 8000).val =
      (LegacyAgc.fresh kAgcModeAdaptiveDigital, 0) ∧ ∃ gain r,
        virtualGainStart (virtualEntry (LegacyAgc.fresh kAgcModeAdaptiveDigital)
          [List.replicate 80 (-32768)] 127).2 = pure gain ∧
        virtualLoop (virtualEntry (LegacyAgc.fresh kAgcModeAdaptiveDigital)
          [List.replicate 80 (-32768)] 127).2 gain
          (List.replicate 80 (-32768)) = pure r ∧ ∀ y ∈ r.2.1, InI16 y := by
  obtain ⟨-, gain, r, hg, hr, -, hy, -⟩ := virtual_tables_safe
    (show (init (create .cleared) 0 255 kAgcModeAdaptiveDigital 8000).val =
      (LegacyAgc.fresh kAgcModeAdaptiveDigital, 0) from rfl) .nil
    (show ∀ x ∈ [List.replicate 80 (-32768)].headD [], InI16 x from fun x hx =>
      by rw [List.eq_of_mem_replicate hx]; decide) 127
  exact ⟨rfl, gain, r, hg, hr, hy⟩

/-! ### Whether a saturated sample lowers the gain -/

/-- A sample saturates with a gain. -/
def Saturates (gain x : Int) : Prop := x * gain / 2 ^ 10 > 32767 ∨ x * gain / 2 ^ 10 < -32768

instance (gain x : Int) : Decidable (Saturates gain x) := inferInstanceAs (Decidable (_ ∨ _))

/-- The gain of an index before the loop. -/
def startGain (idx : Int) : Int := (virtualGainStart idx).val

/-- The gains applied to the samples of band 0: the first before the loop, and
after each sample the one for the next. -/
def applied (idx : Int) (xs : List Int) : List Int :=
  startGain idx :: (virtualLoop idx (startGain idx) xs).val.2.2

/-- The index after the samples. -/
def indexAfter (idx : Int) (xs : List Int) : Int := (virtualLoop idx (startGain idx) xs).val.1

/-- Samples that do not saturate leave index and gain. -/
theorem virtualLoop_quiet : ∀ {pre : List Int} {idx gain : Int},
    (∀ x ∈ pre, InI16 x) → (∀ x ∈ pre, ¬ Saturates gain x) → IdxInv idx gain →
      ∀ ys, (virtualLoop idx gain (pre ++ ys)).val.1 = (virtualLoop idx gain ys).val.1 ∧
        (virtualLoop idx gain (pre ++ ys)).val.2.2 =
          List.replicate pre.length gain ++ (virtualLoop idx gain ys).val.2.2
  | [], _, _, _, _, _, _ => ⟨rfl, rfl⟩
  | x :: pre, idx, gain, hx, hq, h, ys => by
    have hquiet : ¬ (x * gain / 2 ^ 10 > 32767 ∨ x * gain / 2 ^ 10 < -32768) :=
      hq x List.mem_cons_self
    obtain ⟨ih1, ih2⟩ := virtualLoop_quiet (fun y hy => hx y (List.mem_cons_of_mem x hy))
      (fun y hy => hq y (List.mem_cons_of_mem x hy)) h ys
    rw [List.cons_append, (virtualLoop_cons (hx x List.mem_cons_self) h _).2, if_neg hquiet,
      Chk.val_bind, Chk.val_pure]
    exact ⟨ih1, by rw [ih2]; rfl⟩

/-- The first sample that saturates lowers the index and not the gain: the
entry of an index in the loop is that of the next one before it. -/
theorem next_eq_start {idx x : Int} (hidx : 0 ≤ idx ∧ idx ≤ 255) (hx : InI16 x)
    (hsat : Saturates (startGain idx) x) : (virtualGainNext (idx - 1)).val = startGain idx := by
  have h127 : idx ≠ 127 := by
    rintro rfl
    obtain ⟨hx0, hx1⟩ := hx
    rw [Saturates, show startGain 127 = 1024 from rfl] at hsat
    omega
  have hup := (virtualLoop_cons hx (idxInv_start hidx) []).1 hsat
  rw [virtualGainNext, startGain, virtualGainStart, if_pos (by omega), if_pos (by omega),
    show idx - 1 - 127 = idx - 128 by omega]

theorem applied_saturated {idx b : Int} (hidx : 0 ≤ idx ∧ idx ≤ 255) {as : List Int}
    (has : ∀ x ∈ as, InI16 x) (hquiet : ∀ x ∈ as, ¬ Saturates (startGain idx) x)
    (hb : InI16 b) (hsat : Saturates (startGain idx) b) (ys : List Int) :
    ∃ rest, applied idx (as ++ b :: ys) =
      startGain idx :: (List.replicate (as.length + 1) (startGain idx) ++ rest) := by
  have hinv : IdxInv idx (startGain idx) := idxInv_start hidx
  have hover : b * startGain idx / 2 ^ 10 > 32767 ∨ b * startGain idx / 2 ^ 10 < -32768 := hsat
  refine ⟨(virtualLoop (idx - 1) (startGain idx) ys).val.2.2, congrArg (startGain idx :: ·) ?_⟩
  rw [(virtualLoop_quiet has hquiet hinv (b :: ys)).2, (virtualLoop_cons hb hinv ys).2,
    if_pos hover, Chk.val_bind, Chk.val_bind, Chk.val_pure, next_eq_start hidx hb hsat,
    List.replicate_succ', List.append_assoc]
  rfl

theorem getD_replicate_append {g : Int} {m n : ℕ} (h : n ≤ m) (l : List Int) :
    (g :: (List.replicate m g ++ l)).getD n 0 = g := by
  rw [← List.cons_append, ← List.replicate_succ,
    List.getD_append _ _ _ _ (by rw [List.length_replicate]; omega),
    List.getD_eq_getElem _ _ (by rw [List.length_replicate]; omega), List.getElem_replicate]

/-- For every start and every frame: each saturated sample lowers the gain for
the next, and the gain in use is always that of the index as before the loop,
if and only if no sample but the last saturates with the first gain. -/
theorem lowered_iff {idx : Int} (hidx : 0 ≤ idx ∧ idx ≤ 255) {xs : List Int}
    (hx : ∀ x ∈ xs, InI16 x) :
    ((∀ n x, n + 1 < xs.length → xs[n]? = some x → Saturates ((applied idx xs).getD n 0) x →
        (applied idx xs).getD (n + 1) 0 < (applied idx xs).getD n 0) ∧
      ∀ n < xs.length, (applied idx xs).getD n 0 = startGain (indexAfter idx (xs.take n))) ↔
      ∀ x ∈ xs.dropLast, ¬ Saturates (startGain idx) x := by
  have hinv := idxInv_start hidx
  rcases List.eq_nil_or_concat xs with rfl | ⟨pre, z, rfl⟩
  · simp
  rw [List.concat_eq_append] at hx ⊢
  rw [List.dropLast_concat, List.length_append, List.length_singleton]
  have hpre : ∀ x ∈ pre, InI16 x := fun x hm => hx x (List.mem_append_left [z] hm)
  constructor
  · rintro ⟨hlower, -⟩ x hxm hsat
    -- the first one that saturates
    obtain ⟨b, hb⟩ : ∃ b, pre.find? (fun y => decide (Saturates (startGain idx) y)) =
        some b :=
      Option.isSome_iff_exists.mp (List.find?_isSome.mpr ⟨x, hxm, decide_eq_true hsat⟩)
    obtain ⟨hbsat, as, bs, rfl, hquiet⟩ := List.find?_eq_some_iff_append.mp hb
    obtain ⟨rest, happ⟩ :=
      applied_saturated hidx (fun y hy => hpre y (List.mem_append_left _ hy))
      (fun y hy => by simpa using hquiet y hy) (hpre b (by simp)) (of_decide_eq_true hbsat)
        (bs ++ [z])
    have hlt := hlower as.length b (by simp) (by simp)
    rw [List.append_assoc, List.cons_append, happ, getD_replicate_append (by omega),
      getD_replicate_append (by omega)] at hlt
    exact lt_irrefl _ (hlt (of_decide_eq_true hbsat))
  · intro hquiet
    have happ : applied idx (pre ++ [z]) =
        startGain idx :: (List.replicate pre.length (startGain idx) ++ _) :=
      congrArg (startGain idx :: ·) (virtualLoop_quiet hpre hquiet hinv [z]).2
    refine ⟨fun n x hn hxn hsat => ?_, fun n hn => ?_⟩
    · rw [happ, getD_replicate_append (by omega)] at hsat
      rw [List.getElem?_append_left (by omega)] at hxn
      exact absurd hsat (hquiet x (List.mem_of_getElem? hxn))
    · rw [happ, getD_replicate_append (by omega), List.take_append_of_le_length (by omega),
        indexAfter]
      have htake := (virtualLoop_quiet (show ∀ x ∈ pre.take n, InI16 x from fun x hm =>
        hpre x (List.mem_of_mem_take hm)) (fun x hm => hquiet x (List.mem_of_mem_take hm)) hinv
          []).1
      rw [List.append_nil] at htake
      exact congrArg startGain htake.symm

/-- A frame in which only the last sample saturates, at the largest gain. -/
theorem lowered_last : (applied 255 [1, 32767]).getD 0 0 = startGain (indexAfter 255 []) ∧
    (applied 255 [1, 32767]).getD 1 0 = startGain (indexAfter 255 [1]) := by
  obtain ⟨-, hsame⟩ := (lowered_iff (show (0 : Int) ≤ 255 ∧ (255 : Int) ≤ 255 by decide)
    (show ∀ x ∈ [1, 32767], InI16 x by decide)).mpr (by decide +kernel)
  exact ⟨hsame 0 (by decide), hsame 1 (by decide)⟩

/-- Two samples at full scale, at the largest gain: the first saturates and
takes the index to 254, and the second gets the same gain, which is not that of
254 before the loop. -/
theorem not_lowered : Saturates ((applied 255 [32767, 32767]).getD 0 0) 32767 ∧
    (applied 255 [32767, 32767]).getD 0 0 = 32382 ∧
    (applied 255 [32767, 32767]).getD 1 0 = 32382 ∧
    indexAfter 255 [32767] = 254 ∧ startGain 254 = 31520 := by
  decide +kernel

end VirtualMic
end AgcSpec
