/-
# The layout of a channel buffer

The constructor of `ChannelBuffer` fills two tables of pointers into `data_`:
`channels_`, band by band, and from its entries `bands_`, channel by channel.
Through both tables a triple of a channel, a band and a sample has the same
cell; different triples have different cells, and together they are all cells
of `data_`. The channels of the band 0 run on into the other bands, so that
`channels(0)[c]` is the whole channel (`layout_bijection`).

A pointer into `data_` is the place it points to, and `none` before it is
written.
-/
import AgcSpec.ChannelBuffer
import AgcSpec.Lib.Table

namespace AgcSpec

open Tables

/-- `channels_` and `bands_`. -/
structure Pointers where
  channels_ : List (Option ℕ)
  bands_ : List (Option ℕ)

namespace Pointers

variable {frames channels bands : ℕ}

/-- The tables before the loop. -/
def new (channels bands : ℕ) : Pointers :=
  ⟨List.replicate (channels * bands) none, List.replicate (channels * bands) none⟩

/-- The body of the constructor's loop. -/
def set (frames channels bands i j : ℕ) (p : Pointers) : Pointers :=
  let channels_ := p.channels_.set (j * channels + i) (some (i * frames + j * (frames / bands)))
  ⟨channels_, p.bands_.set (i * bands + j) (channels_.getD (j * channels + i) none)⟩

/-- The constructor's loop. -/
def fill (frames channels bands : ℕ) : Pointers :=
  (List.range channels).foldl
    (fun p i => (List.range bands).foldl (fun p j => p.set frames channels bands i j) p)
    (new channels bands)

/-- The cell of `channels(band)[channel][sample]`. -/
def channelCell (p : Pointers) (channels band channel sample : ℕ) : Option ℕ :=
  (p.channels_.getD (band * channels + channel) none).map (· + sample)

/-- The cell of `bands(channel)[band][sample]`. -/
def bandCell (p : Pointers) (bands channel band sample : ℕ) : Option ℕ :=
  (p.bands_.getD (channel * bands + band) none).map (· + sample)

/-- What the loop writes for a channel and a band. -/
def place (frames bands : ℕ) (ij : ℕ × ℕ) : Option ℕ :=
  some (ij.1 * frames + ij.2 * (frames / bands))

theorem set_eq {i j : ℕ} (hi : i < channels) (hj : j < bands) {p : Pointers}
    (hp : p.channels_.length = channels * bands) :
    p.set frames channels bands i j =
      ⟨p.channels_.set (cell channels j i) (place frames bands (i, j)),
      p.bands_.set (cell bands i j) (place frames bands (i, j))⟩ := by
  have hlt : cell channels j i < p.channels_.length := by
    rw [hp, mul_comm]
    exact cell_lt hj hi
  unfold set
  dsimp only
  rw [List.getD_eq_getElem?_getD, show j * channels + i = cell channels j i from rfl,
    List.getElem?_set_self hlt]
  rfl

theorem loop_eq {is : List (ℕ × ℕ)} (his : ∀ ij ∈ is, ij.1 < channels ∧ ij.2 < bands)
    {p : Pointers} (hp : p.channels_.length = channels * bands) :
    is.foldl (fun p ij => p.set frames channels bands ij.1 ij.2) p =
      ⟨Tables.fill (fun ij => cell channels ij.2 ij.1) (place frames bands) is p.channels_,
        Tables.fill (fun ij => cell bands ij.1 ij.2) (place frames bands) is p.bands_⟩ := by
  induction is generalizing p with
  | nil => rfl
  | cons ij is ih =>
    obtain ⟨hi, hj⟩ := his ij List.mem_cons_self
    rw [List.foldl_cons, set_eq hi hj hp, ih (fun a ha => his a (List.mem_cons_of_mem ij ha))
      (by simpa using hp)]
    rfl

theorem mem_grid {m n : ℕ} {ij : ℕ × ℕ} :
    ij ∈ List.range m ×ˢ List.range n ↔ ij.1 < m ∧ ij.2 < n := by
  rw [← Prod.mk.eta (p := ij), List.mem_product, List.mem_range, List.mem_range]

theorem fill_eq (frames channels bands : ℕ) : fill frames channels bands =
    ⟨Tables.fill (fun ij => cell channels ij.2 ij.1) (place frames bands)
      (List.range channels ×ˢ List.range bands) (List.replicate (channels * bands) none),
      Tables.fill (fun ij => cell bands ij.1 ij.2) (place frames bands)
        (List.range channels ×ˢ List.range bands)
        (List.replicate (channels * bands) none)⟩ := by
  have hloop : fill frames channels bands = (List.range channels ×ˢ List.range bands).foldl
      (fun p ij => p.set frames channels bands ij.1 ij.2) (new channels bands) :=
    foldl_grid (fun (p : Pointers) ij => p.set frames channels bands ij.1 ij.2) _ _ _
  rw [hloop, loop_eq (fun ij h => mem_grid.mp h) List.length_replicate]
  rfl

/-- An entry of one of the tables, if the loop writes each at a place of its own. -/
theorem entry {key : ℕ × ℕ → ℕ} {c b : ℕ} (hc : c < channels) (hb : b < bands)
    (hlt : key (c, b) < channels * bands)
    (hinj : ∀ ij ∈ List.range channels ×ˢ List.range bands,
      ∀ kl ∈ List.range channels ×ˢ List.range bands, key ij = key kl → ij = kl) :
    (Tables.fill key (place frames bands) (List.range channels ×ˢ List.range bands)
      (List.replicate (channels * bands) none)).getD (key (c, b)) none =
        some (c * frames + b * (frames / bands)) := by
  rw [List.getD_eq_getElem?_getD, getElem?_fill hinj (mem_grid.mpr ⟨hc, hb⟩)
    (by rwa [List.length_replicate])]
  rfl

theorem channelCell_fill {c b : ℕ} (hc : c < channels) (hb : b < bands) (s : ℕ) :
    (fill frames channels bands).channelCell channels b c s =
      some (c * frames + b * (frames / bands) + s) := by
  rw [fill_eq, channelCell]
  have h := @entry frames channels bands (fun ij => cell channels ij.2 ij.1) c b hc hb ?_ ?_
  · exact congrArg (Option.map (· + s)) h
  · exact (cell_lt hb hc).trans_eq (mul_comm _ _)
  · intro ij hij kl hkl heq
    obtain ⟨h2, h1⟩ := cell_inj (mem_grid.mp hij).1 (mem_grid.mp hkl).1 heq
    exact Prod.ext h1 h2

theorem bandCell_fill {c b : ℕ} (hc : c < channels) (hb : b < bands) (s : ℕ) :
    (fill frames channels bands).bandCell bands c b s =
      some (c * frames + b * (frames / bands) + s) := by
  rw [fill_eq, bandCell]
  have h := @entry frames channels bands (fun ij => cell bands ij.1 ij.2) c b hc hb ?_ ?_
  · exact congrArg (Option.map (· + s)) h
  · exact cell_lt hc hb
  · intro ij hij kl hkl heq
    obtain ⟨h1, h2⟩ := cell_inj (mem_grid.mp hij).2 (mem_grid.mp hkl).2 heq
    exact Prod.ext h1 h2

theorem place_add (h : bands ∣ frames) (c b s : ℕ) :
    c * frames + b * (frames / bands) + s = cell (frames / bands) (cell bands c b) s := by
  have hframes : bands * (frames / bands) = frames := Nat.mul_div_cancel' h
  calc c * frames + b * (frames / bands) + s
      = c * (bands * (frames / bands)) + b * (frames / bands) + s := by rw [hframes]
    _ = (c * bands + b) * (frames / bands) + s := by ring

/-- Through `channels_` and `bands_`, the triples of a channel, a band and a
sample have the cells of `data_`, each its own, and `channels(0)` the bands of
each channel in order. -/
theorem layout_bijection {T : Type} (buf : ChannelBuffer T frames channels bands)
    (h : bands ∣ frames) :
    (∀ c b s, c < channels → b < bands → s < frames / bands → ∃ k < buf.data_.length,
        (fill frames channels bands).channelCell channels b c s = some k ∧
          (fill frames channels bands).bandCell bands c b s = some k ∧ k = buf.start b c + s) ∧
      (∀ c b s c' b' s', c < channels → b < bands → s < frames / bands → c' < channels →
        b' < bands → s' < frames / bands →
          (fill frames channels bands).channelCell channels b c s =
            (fill frames channels bands).channelCell channels b' c' s' →
              (c, b, s) = (c', b', s')) ∧
      (∀ k < buf.data_.length, ∃ c b s, c < channels ∧ b < bands ∧ s < frames / bands ∧
        (fill frames channels bands).channelCell channels b c s = some k) ∧
      ∀ c s, c < channels → s < frames → s / (frames / bands) < bands ∧
        s % (frames / bands) < frames / bands ∧
          (fill frames channels bands).channelCell channels 0 c s =
          (fill frames channels bands).bandCell bands c (s / (frames / bands))
          (s % (frames / bands)) := by
  have hsize : buf.data_.length = channels * bands * (frames / bands) := by
    rw [buf.size, mul_assoc, Nat.mul_div_cancel' h, mul_comm]
  refine ⟨?_, ?_, ?_, ?_⟩
  · intro c b s hc hb hs
    refine ⟨_, ?_, channelCell_fill hc hb s, bandCell_fill hc hb s, rfl⟩
    rw [place_add h, hsize]
    exact cell_lt (cell_lt hc hb) hs
  · intro c b s c' b' s' hc hb hs hc' hb' hs' heq
    rw [channelCell_fill hc hb, channelCell_fill hc' hb', place_add h, place_add h] at heq
    obtain ⟨hrow, rfl⟩ := cell_inj hs hs' (Option.some.inj heq)
    obtain ⟨rfl, rfl⟩ := cell_inj hb hb' hrow
    rfl
  · intro k hk
    rw [hsize] at hk
    have hrow := row_lt hk
    refine ⟨_, _, _, row_lt hrow, column_lt hrow, column_lt hk, ?_⟩
    rw [channelCell_fill (row_lt hrow) (column_lt hrow), place_add h, cell_div_mod, cell_div_mod]
  · intro c s hc hs
    have hs' : s < bands * (frames / bands) := by rwa [Nat.mul_div_cancel' h]
    have hb := row_lt hs'
    refine ⟨hb, column_lt hs', ?_⟩
    rw [channelCell_fill hc (Nat.zero_lt_of_lt hb), bandCell_fill hc hb, zero_mul,
      add_zero, add_assoc]
    exact congrArg (fun x => some (c * frames + x)) (cell_div_mod (frames / bands) s).symm

/-- The example of the header: two channels with two bands, here of three
samples. -/
theorem layout_bijection_two :
    (2 : ℕ) ∣ 6 ∧ (fill 6 2 2).channelCell 2 0 1 4 = (fill 6 2 2).bandCell 2 1 1 1 :=
  ⟨by decide, ((layout_bijection (.new ℕ 6 2 2) (by decide)).2.2.2 1 4 (by decide)
    (by decide)).2.2⟩

end Pointers
end AgcSpec
