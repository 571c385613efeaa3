/-
# Channel buffers

`ChannelBuffer` and `IFChannelBuffer` of `common_audio/channel_buffer.h`. A
buffer is one array for all channels, one channel after the other, with the
bands of a channel in order; the constants of a buffer (frames, allocated
channels, bands) are parameters of its type. An `IFChannelBuffer` has the same
samples as integers and as floats, with a flag for each of the two; asking for
one of them brings it up to date.

A refresh copies the channels that are visible and then marks the whole buffer
as valid. A sample of a hidden channel is passed by, and what was last written
to it is lost for the other view once the channel is shown again. For every
sample that no refresh has passed by since it was written both views have the
value last written (`views_agree`); the others may differ (`views_differ`).

The conversions between the two kinds of samples are parameters. The debug
checks (`RTC_DCHECK`) do nothing in the code as it runs; `set_num_channels`
with more channels than are allocated is left out of the runs.
-/
import AgcSpec.Lib.Run
import Mathlib

namespace AgcSpec

open Runs

/-! ### One buffer -/

/-- `ChannelBuffer<T>`: the samples, and the number of channels the user sees. -/
structure ChannelBuffer (T : Type) (frames channels bands : ℕ) where
  data_ : List T
  size : data_.length = frames * channels
  num_channels_ : ℕ

namespace ChannelBuffer

variable {S T : Type} {frames channels bands : ℕ}

/-- The constructor: zeros, and all channels visible. -/
def new (T : Type) [Zero T] (frames channels bands : ℕ) : ChannelBuffer T frames channels bands :=
  ⟨List.replicate (frames * channels) 0, List.length_replicate, channels⟩

/-- The place of the first sample of a band of a channel, in `data_`: what
`channels(band)[channel]` and `bands(channel)[band]` point to. -/
def start (_ : ChannelBuffer T frames channels bands) (band channel : ℕ) : ℕ :=
  channel * frames + band * (frames / bands)

/-- `set_num_channels`. -/
def setNumChannels (b : ChannelBuffer T frames channels bands) (n : ℕ) :
    ChannelBuffer T frames channels bands :=
  { b with num_channels_ := n }

/-- A write through a pointer into the buffer. -/
def write (b : ChannelBuffer T frames channels bands) (w : ℕ × T) :
    ChannelBuffer T frames channels bands :=
  ⟨b.data_.set w.1 w.2, by rw [List.length_set, b.size], b.num_channels_⟩

/-- Writes one after the other. -/
def writes (b : ChannelBuffer T frames channels bands) (ws : List (ℕ × T)) :
    ChannelBuffer T frames channels bands :=
  ws.foldl write b

/-- The `n` samples from a place on. -/
def row (b : ChannelBuffer T frames channels bands) (start n : ℕ) : List T :=
  (b.data_.drop start).take n

/-- Samples written from a place on. -/
def writeRow (b : ChannelBuffer T frames channels bands) (start : ℕ) (xs : List T) :
    ChannelBuffer T frames channels bands :=
  b.writes ((xs.zipIdx start).map Prod.swap)

/-- The loop of a refresh: the visible channels of `src`, converted. -/
def copyChannels (conv : S → T) (src : ChannelBuffer S frames channels bands)
    (dst : ChannelBuffer T frames channels bands) : ChannelBuffer T frames channels bands :=
  (List.range src.num_channels_).foldl
    (fun d i => d.writeRow (i * frames) ((src.row (i * frames) frames).map conv))
    (dst.setNumChannels src.num_channels_)

theorem getElem?_writeRow (xs : List T) :
    ∀ (b : ChannelBuffer T frames channels bands) (start : ℕ) {c : ℕ},
      c < frames * channels → (b.writeRow start xs).data_[c]? =
      if start ≤ c ∧ c < start + xs.length then xs[c - start]? else b.data_[c]? := by
  induction xs with
  | nil =>
    intro b start c _
    rw [if_neg (by simp)]
    rfl
  | cons x xs ih =>
    intro b start c hc
    have hstep : b.writeRow start (x :: xs) = (b.write (start, x)).writeRow (start + 1) xs := by
      simp [writeRow, writes, List.zipIdx_cons]
    rw [hstep, ih _ _ hc, write, List.getElem?_set]
    by_cases h0 : start = c
    · subst h0
      simp [b.size, hc]
    · rw [if_neg h0]
      by_cases h1 : start + 1 ≤ c ∧ c < start + 1 + xs.length
      · rw [if_pos h1, if_pos (by simp only [List.length_cons]; omega), show c - start =
          c - (start + 1) + 1 by omega, List.getElem?_cons_succ]
      · rw [if_neg h1, if_neg (by simp only [List.length_cons]; omega)]

theorem num_channels_writeRow (b : ChannelBuffer T frames channels bands) (start : ℕ)
    (xs : List T) : (b.writeRow start xs).num_channels_ = b.num_channels_ := by
  have hall : ∀ (ws : List (ℕ × T)) (b : ChannelBuffer T frames channels bands),
      (b.writes ws).num_channels_ = b.num_channels_ := by
    intro ws
    induction ws with
    | nil => exact fun _ => rfl
    | cons w ws ih => exact fun b => ih (b.write w)
  exact hall _ b

theorem getElem?_row (b : ChannelBuffer T frames channels bands) {start n k : ℕ} (hk : k < n) :
    (b.row start n)[k]? = b.data_[start + k]? := by
  rw [row, List.getElem?_take_of_lt hk, List.getElem?_drop]

theorem row_writeRow (b : ChannelBuffer T frames 1 bands) {xs : List T}
    (hlen : xs.length = frames) : (b.writeRow 0 xs).row 0 frames = xs := by
  refine List.ext_getElem? fun k => ?_
  by_cases hk : k < frames
  · rw [getElem?_row _ hk, zero_add, getElem?_writeRow _ _ _ (by omega), if_pos (by omega),
      Nat.sub_zero]
  · have hrow : ((b.writeRow 0 xs).row 0 frames).length ≤ frames := by
      rw [row, List.length_take]
      omega
    rw [List.getElem?_eq_none (by omega), List.getElem?_eq_none (by omega)]

theorem getElem?_copyLoop (conv : S → T) (src : ChannelBuffer S frames channels bands)
    (dst : ChannelBuffer T frames channels bands) {c : ℕ} (hc : c < frames * channels) (n : ℕ) :
    ((List.range n).foldl
      (fun d i => d.writeRow (i * frames) ((src.row (i * frames) frames).map conv)) dst).data_[c]? =
      if c < n * frames then src.data_[c]?.map conv else dst.data_[c]? := by
  induction n with
  | zero => simp
  | succ n ih =>
    have hlen : ((src.row (n * frames) frames).map conv).length =
        min frames (frames * channels - n * frames) := by
      rw [List.length_map, row, List.length_take, List.length_drop, src.size]
    rw [List.range_succ, List.foldl_append, List.foldl_cons, List.foldl_nil,
      getElem?_writeRow _ _ _ hc, hlen, ih, Nat.succ_mul]
    by_cases h : n * frames ≤ c ∧ c < n * frames + frames
    · rw [if_pos ⟨h.1, by omega⟩, if_pos h.2, List.getElem?_map, getElem?_row src (by omega),
        show n * frames + (c - n * frames) = c by omega]
    · rw [if_neg fun h' => h ⟨h'.1, by omega⟩]
      by_cases h' : c < n * frames
      · rw [if_pos h', if_pos (by omega)]
      · rw [if_neg h', if_neg fun h'' => h ⟨by omega, h''⟩]

/-- What a refresh does to a sample: it is copied if its channel is visible. -/
theorem getElem?_copyChannels (conv : S → T) (src : ChannelBuffer S frames channels bands)
    (dst : ChannelBuffer T frames channels bands) {c : ℕ} (hc : c < frames * channels) :
    (copyChannels conv src dst).data_[c]? =
      if c < src.num_channels_ * frames then src.data_[c]?.map conv else dst.data_[c]? :=
  getElem?_copyLoop conv src (dst.setNumChannels src.num_channels_) hc src.num_channels_

theorem num_channels_copyChannels (conv : S → T) (src : ChannelBuffer S frames channels bands)
    (dst : ChannelBuffer T frames channels bands) :
    (copyChannels conv src dst).num_channels_ = src.num_channels_ := by
  have hloop : ∀ (l : List ℕ) (d : ChannelBuffer T frames channels bands),
      (l.foldl (fun d i => d.writeRow (i * frames) ((src.row (i * frames) frames).map conv))
        d).num_channels_ =
        d.num_channels_ := by
    intro l
    induction l with
    | nil => exact fun _ => rfl
    | cons i l ih => exact fun d => (ih _).trans (num_channels_writeRow _ _ _)
  exact hloop _ _

theorem getElem?_write (b : ChannelBuffer T frames channels bands) (w : ℕ × T) {c : ℕ}
    (hc : c < frames * channels) :
    (b.write w).data_[c]? = if w.1 = c then some w.2 else b.data_[c]? := by
  rw [write, List.getElem?_set]
  by_cases h : w.1 = c
  · rw [if_pos h, if_pos h, if_pos (by rw [h, b.size]; exact hc)]
  · rw [if_neg h, if_neg h]

end ChannelBuffer

/-! ### Two views -/

/-- `IFChannelBuffer`. -/
structure IFChannelBuffer (I F : Type) (frames channels bands : ℕ) where
  ivalid_ : Bool
  ibuf_ : ChannelBuffer I frames channels bands
  fvalid_ : Bool
  fbuf_ : ChannelBuffer F frames channels bands

namespace IFChannelBuffer

variable {I F : Type} {frames channels bands : ℕ}

/-- The constructor. -/
def new (I F : Type) [Zero I] [Zero F] (frames channels bands : ℕ) :
    IFChannelBuffer I F frames channels bands :=
  ⟨true, .new I frames channels bands, true, .new F frames channels bands⟩

/-- `num_channels`. -/
def num_channels (b : IFChannelBuffer I F frames channels bands) : ℕ :=
  if b.ivalid_ then b.ibuf_.num_channels_ else b.fbuf_.num_channels_

/-- `set_num_channels`. -/
def setNumChannels (b : IFChannelBuffer I F frames channels bands) (n : ℕ) :
    IFChannelBuffer I F frames channels bands :=
  { b with ibuf_ := b.ibuf_.setNumChannels n, fbuf_ := b.fbuf_.setNumChannels n }

variable (i2f : I → F) (f2i : F → I)

/-- `RefreshF`. -/
def refreshF (b : IFChannelBuffer I F frames channels bands) :
    IFChannelBuffer I F frames channels bands :=
  if ¬ b.fvalid_ then { b with fbuf_ := .copyChannels i2f b.ibuf_ b.fbuf_, fvalid_ := true } else b

/-- `RefreshI`; `f2i` is `FloatS16ToS16`. -/
def refreshI (b : IFChannelBuffer I F frames channels bands) :
    IFChannelBuffer I F frames channels bands :=
  if ¬ b.ivalid_ then { b with ibuf_ := .copyChannels f2i b.fbuf_ b.ibuf_, ivalid_ := true } else b

/-- `ibuf`: the buffer that is written to is `ibuf_` of the result. -/
def ibuf (b : IFChannelBuffer I F frames channels bands) :
    IFChannelBuffer I F frames channels bands :=
  { b.refreshI f2i with fvalid_ := false }

/-- `fbuf`. -/
def fbuf (b : IFChannelBuffer I F frames channels bands) :
    IFChannelBuffer I F frames channels bands :=
  { b.refreshF i2f with ivalid_ := false }

/-- `ibuf_const` and `fbuf_const` refresh, too. -/
def ibufConst (b : IFChannelBuffer I F frames channels bands) :
    IFChannelBuffer I F frames channels bands := b.refreshI f2i
def fbufConst (b : IFChannelBuffer I F frames channels bands) :
    IFChannelBuffer I F frames channels bands := b.refreshF i2f

/-- `ibuf`, with a row written; `fbuf`, with a row written. -/
def writeRowI (b : IFChannelBuffer I F frames channels bands) (start : ℕ) (xs : List I) :
    IFChannelBuffer I F frames channels bands :=
  { b.ibuf f2i with ibuf_ := (b.ibuf f2i).ibuf_.writeRow start xs }
def writeRowF (b : IFChannelBuffer I F frames channels bands) (start : ℕ) (xs : List F) :
    IFChannelBuffer I F frames channels bands :=
  { b.fbuf i2f with fbuf_ := (b.fbuf i2f).fbuf_.writeRow start xs }

/-- One of the two is up to date. -/
def Valid (b : IFChannelBuffer I F frames channels bands) : Prop :=
  b.ivalid_ = true ∨ b.fvalid_ = true

/-- What can be read as integers. -/
def intView (b : IFChannelBuffer I F frames channels bands) :
    ChannelBuffer I frames channels bands := (b.ibufConst f2i).ibuf_

variable {i2f f2i} {b : IFChannelBuffer I F frames channels bands}

theorem ivalid_refreshI : (b.refreshI f2i).ivalid_ = true := by
  by_cases h : b.ivalid_ = true
  · rw [refreshI, if_neg (not_not.mpr h), h]
  · rw [refreshI, if_pos h]

theorem fvalid_refreshF : (b.refreshF i2f).fvalid_ = true := by
  by_cases h : b.fvalid_ = true
  · rw [refreshF, if_neg (not_not.mpr h), h]
  · rw [refreshF, if_pos h]

theorem valid_writeRowI (start : ℕ) (xs : List I) : (b.writeRowI f2i start xs).Valid :=
  .inl ivalid_refreshI
theorem valid_writeRowF (start : ℕ) (xs : List F) : (b.writeRowF i2f start xs).Valid :=
  .inr fvalid_refreshF
theorem valid_refreshI : (b.refreshI f2i).Valid := .inl ivalid_refreshI
theorem valid_refreshF : (b.refreshF i2f).Valid := .inr fvalid_refreshF

theorem intView_of_ivalid (h : b.ivalid_ = true) : b.intView f2i = b.ibuf_ := by
  rw [intView, ibufConst, refreshI, if_neg (not_not.mpr h)]

/-- A refresh of the integers shows the same integers. -/
theorem intView_refreshI : (b.refreshI f2i).intView f2i = b.intView f2i :=
  intView_of_ivalid ivalid_refreshI

/-- So does one of the floats: it happens only while the integers are valid. -/
theorem intView_refreshF (hb : b.Valid) : (b.refreshF i2f).intView f2i = b.intView f2i := by
  by_cases hf : b.fvalid_ = true
  · rw [refreshF, if_neg (not_not.mpr hf)]
  · have hi : b.ivalid_ = true := hb.resolve_right hf
    rw [refreshF, if_pos hf, intView_of_ivalid hi]
    exact intView_of_ivalid hi

end IFChannelBuffer

/-! ### The views over runs -/

namespace Views

open IFChannelBuffer

variable {I F : Type} {frames channels bands : ℕ}

/-- A call; the ones that give write access come with the writes that follow. -/
inductive Op (I F : Type) where
  | ibuf (ws : List (ℕ × I))
  | fbuf (ws : List (ℕ × F))
  | ibufConst
  | fbufConst
  | setNumChannels (n : ℕ)

section

variable (i2f : I → F) (f2i : F → I)

/-- The buffer after a call. -/
def Op.run (b : IFChannelBuffer I F frames channels bands) :
    Op I F → IFChannelBuffer I F frames channels bands
  | .ibuf ws => { b.ibuf f2i with ibuf_ := (b.ibuf f2i).ibuf_.writes ws }
  | .fbuf ws => { b.fbuf i2f with fbuf_ := (b.fbuf i2f).fbuf_.writes ws }
  | .ibufConst => b.ibufConst f2i
  | .fbufConst => b.fbufConst i2f
  | .setNumChannels n => b.setNumChannels n

/-- What is allowed: integers that fit are written as floats, and not more
channels are shown than there are. -/
def Op.Allowed (channels : ℕ) : Op I F → Prop
  | .fbuf ws => ∀ w ∈ ws, ∃ x, w.2 = i2f x
  | .setNumChannels n => n ≤ channels
  | _ => True

/-- Beside a buffer: the value last written to each sample, as an integer, and
whether a refresh has passed the sample by since. -/
structure Ghost (I : Type) where
  last : ℕ → Option I
  missed : ℕ → Bool

/-- Nothing has been written. -/
def Ghost.new : Ghost I := ⟨fun _ => none, fun _ => false⟩

/-- A write. -/
def Ghost.wrote (g : Ghost I) (w : ℕ × I) : Ghost I :=
  ⟨Function.update g.last w.1 (some w.2), Function.update g.missed w.1 false⟩

/-- A refresh of the first `visible` samples; nothing if it copies nothing. -/
def Ghost.refreshed (g : Ghost I) (copies : Bool) (visible : ℕ) : Ghost I :=
  { g with missed := fun c => g.missed c || (copies && decide (visible ≤ c)) }

/-- The samples whose channels are visible come first. -/
def visible (b : IFChannelBuffer I F frames channels bands) : ℕ := b.num_channels * frames

/-- The ghost after a call. -/
def Op.track (b : IFChannelBuffer I F frames channels bands) (g : Ghost I) : Op I F → Ghost I
  | .ibuf ws => ws.foldl Ghost.wrote (g.refreshed (!b.ivalid_) (visible b))
  | .fbuf ws =>
    (ws.map fun w => (w.1, f2i w.2)).foldl Ghost.wrote (g.refreshed (!b.fvalid_) (visible b))
  | .ibufConst => g.refreshed (!b.ivalid_) (visible b)
  | .fbufConst => g.refreshed (!b.fvalid_) (visible b)
  | .setNumChannels _ => g

/-- A call on a buffer with its ghost. -/
def Step (p : IFChannelBuffer I F frames channels bands × Ghost I) (op : Op I F)
    (q : IFChannelBuffer I F frames channels bands × Ghost I) : Prop :=
  op.Allowed i2f channels ∧ q = (op.run i2f f2i p.1, op.track f2i p.1 p.2)

end

/-- One of the two views is valid, both show the same channels, all of them
allocated, and a view that is valid has the value last written to every sample
that was not passed by. -/
structure Synced (i2f : I → F) (b : IFChannelBuffer I F frames channels bands) (g : Ghost I) :
    Prop where
  valid : b.Valid
  count : b.ibuf_.num_channels_ = b.fbuf_.num_channels_
  shown : b.ibuf_.num_channels_ ≤ channels
  ints : b.ivalid_ = true → ∀ c < frames * channels, ∀ x, g.last c = some x →
    g.missed c = false → b.ibuf_.data_[c]? = some x
  floats : b.fvalid_ = true → ∀ c < frames * channels, ∀ x, g.last c = some x →
    g.missed c = false → b.fbuf_.data_[c]? = some (i2f x)

section

variable {i2f : I → F} {f2i : F → I} {b : IFChannelBuffer I F frames channels bands}
    {g : Ghost I}

theorem synced_new [Zero I] [Zero F] :
    Synced i2f (.new I F frames channels bands) (Ghost.new : Ghost I) :=
  ⟨.inl rfl, rfl, le_refl _, fun _ _ _ _ hl => (by cases hl), fun _ _ _ _ hl => (by cases hl)⟩

theorem visible_eq (h : Synced i2f b g) :
    visible b = b.ibuf_.num_channels_ * frames ∧ visible b = b.fbuf_.num_channels_ * frames := by
  rw [visible, IFChannelBuffer.num_channels]
  split
  · exact ⟨rfl, by rw [h.count]⟩
  · exact ⟨by rw [h.count], rfl⟩

/-- A sample that was not passed by a copying refresh was visible to it. -/
theorem of_refreshed {v c : ℕ} (h : (g.refreshed true v).missed c = false) :
    g.missed c = false ∧ c < v := by
  simp only [Ghost.refreshed, Bool.true_and, Bool.or_eq_false_iff, decide_eq_false_iff_not, not_le]
    at h
  exact h

theorem refreshed_false (v : ℕ) : g.refreshed false v = g := by
  simp [Ghost.refreshed]

theorem synced_refreshI (hconv : ∀ x, f2i (i2f x) = x) (h : Synced i2f b g) :
    Synced i2f (b.refreshI f2i) (g.refreshed (!b.ivalid_) (visible b)) := by
  rw [IFChannelBuffer.refreshI]
  by_cases hi : b.ivalid_ = true
  · rw [if_neg (not_not.mpr hi), hi, Bool.not_true, refreshed_false]
    exact h
  · rw [if_pos hi, Bool.eq_false_iff.mpr hi, Bool.not_false]
    have hf : b.fvalid_ = true := h.valid.resolve_left hi
    have hn := ChannelBuffer.num_channels_copyChannels f2i b.fbuf_ b.ibuf_
    refine ⟨.inl rfl, hn, hn.trans_le (h.count ▸ h.shown), fun _ c hc x hl hm => ?_,
      fun _ c hc x hl hm => ?_⟩
    · obtain ⟨hm, hv⟩ := of_refreshed hm
      rw [(visible_eq h).2] at hv
      rw [ChannelBuffer.getElem?_copyChannels _ _ _ hc, if_pos hv, h.floats hf c hc x hl hm,
        Option.map_some, hconv]
    · exact h.floats hf c hc x hl (of_refreshed hm).1

theorem synced_refreshF (h : Synced i2f b g) :
    Synced i2f (b.refreshF i2f) (g.refreshed (!b.fvalid_) (visible b)) := by
  rw [IFChannelBuffer.refreshF]
  by_cases hf : b.fvalid_ = true
  · rw [if_neg (not_not.mpr hf), hf, Bool.not_true, refreshed_false]
    exact h
  · rw [if_pos hf, Bool.eq_false_iff.mpr hf, Bool.not_false]
    have hi : b.ivalid_ = true := h.valid.resolve_right hf
    refine ⟨.inr rfl, (ChannelBuffer.num_channels_copyChannels _ _ _).symm, h.shown,
      fun _ c hc x hl hm => ?_, fun _ c hc x hl hm => ?_⟩
    · exact h.ints hi c hc x hl (of_refreshed hm).1
    · obtain ⟨hm, hv⟩ := of_refreshed hm
      rw [(visible_eq h).1] at hv
      rw [ChannelBuffer.getElem?_copyChannels _ _ _ hc, if_pos hv, h.ints hi c hc x hl hm,
        Option.map_some]

theorem wrote_cases {w : ℕ × I} {c : ℕ} {x : I} (hl : (g.wrote w).last c = some x)
    (hm : (g.wrote w).missed c = false) :
    (w.1 = c ∧ w.2 = x) ∨ (w.1 ≠ c ∧ g.last c = some x ∧ g.missed c = false) := by
  by_cases h : w.1 = c
  · subst h
    simp only [Ghost.wrote, Function.update_self] at hl
    exact .inl ⟨rfl, Option.some.inj hl⟩
  · simp only [Ghost.wrote, Function.update_of_ne (Ne.symm h)] at hl hm
    exact .inr ⟨h, hl, hm⟩

/-- Writes to the integers, while the floats are not valid. -/
theorem synced_writeI :
    ∀ (ws : List (ℕ × I)) {b : IFChannelBuffer I F frames channels bands} {g : Ghost I},
      Synced i2f b g → b.fvalid_ = false → Synced i2f { b with ibuf_ := b.ibuf_.writes ws }
        (ws.foldl Ghost.wrote g)
  | [], _, _, h, _ => h
  | w :: ws, b, g, h, hf => by
    refine synced_writeI ws (b := { b with ibuf_ := b.ibuf_.write w }) ⟨h.valid, h.count, h.shown,
      fun hi c hc x hl hm => ?_, fun hf' => absurd hf' (by rw [hf]; decide)⟩ hf
    rw [ChannelBuffer.getElem?_write _ _ hc]
    rcases wrote_cases hl hm with ⟨hw, hx⟩ | ⟨hw, hl, hm⟩
    · rw [if_pos hw, hx]
    · rw [if_neg hw]
      exact h.ints hi c hc x hl hm

/-- Writes to the floats, while the integers are not valid. -/
theorem synced_writeF (hconv : ∀ x, f2i (i2f x) = x) :
    ∀ (ws : List (ℕ × F)) {b : IFChannelBuffer I F frames channels bands}
    {g : Ghost I}, (∀ w ∈ ws, ∃ x, w.2 = i2f x) → Synced i2f b g → b.ivalid_ = false →
      Synced i2f { b with fbuf_ := b.fbuf_.writes ws }
        ((ws.map fun w => (w.1, f2i w.2)).foldl Ghost.wrote g)
  | [], _, _, _, h, _ => h
  | w :: ws, b, g, hws, h, hi => by
    refine synced_writeF hconv ws (b := { b with fbuf_ := b.fbuf_.write w })
      (fun v hv => hws v (List.mem_cons_of_mem _ hv))
      ⟨h.valid, h.count, h.shown, fun hi' => absurd hi' (by rw [hi]; decide),
        fun hf c hc x hl hm => ?_⟩ hi
    obtain ⟨y, hy⟩ := hws w List.mem_cons_self
    rw [ChannelBuffer.getElem?_write _ _ hc]
    rcases wrote_cases hl hm with ⟨hw, hx⟩ | ⟨hw, hl, hm⟩
    · have hxy : f2i w.2 = x := hx
      rw [hy, hconv] at hxy
      rw [if_pos hw, hy, hxy]
    · rw [if_neg hw]
      exact h.floats hf c hc x hl hm

theorem synced_step (hconv : ∀ x, f2i (i2f x) = x) {op : Op I F} (h : Synced i2f b g)
    (hop : op.Allowed i2f channels) : Synced i2f (op.run i2f f2i b) (op.track f2i b g) := by
  cases op with
  | ibuf ws =>
    have h := synced_refreshI hconv h
    exact synced_writeI ws (b := b.ibuf f2i) ⟨.inl ivalid_refreshI, h.count, h.shown, h.ints,
      fun hf => by cases hf⟩ rfl
  | fbuf ws =>
    have h := synced_refreshF h
    exact synced_writeF hconv ws (b := b.fbuf i2f) hop ⟨.inr fvalid_refreshF, h.count, h.shown,
      fun hi => (by cases hi), h.floats⟩ rfl
  | ibufConst => exact synced_refreshI hconv h
  | fbufConst => exact synced_refreshF h
  | setNumChannels n => exact ⟨h.valid, rfl, hop, h.ints, h.floats⟩

/-- A visible sample that was not passed by, read through either view. -/
theorem read_views (hconv : ∀ x, f2i (i2f x) = x) (h : Synced i2f b g) {c : ℕ}
    (hv : c < visible b) {x : I} (hl : g.last c = some x) (hm : g.missed c = false) :
    (b.ibufConst f2i).ibuf_.data_[c]? = some x ∧
      (b.fbufConst i2f).fbuf_.data_[c]? = some (i2f x) := by
  have hc : c < frames * channels := by
    rw [(visible_eq h).1] at hv
    exact hv.trans_le (by rw [mul_comm frames]; exact Nat.mul_le_mul_right _ h.shown)
  have hstill : ∀ copies, (g.refreshed copies (visible b)).missed c = false := fun copies => by
    simp [Ghost.refreshed, hm, hv]
  exact ⟨(synced_refreshI hconv h).ints ivalid_refreshI c hc x hl (hstill _),
    (synced_refreshF h).floats fvalid_refreshF c hc x hl (hstill _)⟩

end

/-- A call leaves one of the two flags up. -/
theorem valid_run {i2f : I → F} {f2i : F → I} {b : IFChannelBuffer I F frames channels bands}
    (hb : b.Valid) (op : Op I F) : (op.run i2f f2i b).Valid := by
  cases op with
  | ibuf _ => exact .inl ivalid_refreshI
  | fbuf _ => exact .inr fvalid_refreshF
  | ibufConst => exact valid_refreshI
  | fbufConst => exact valid_refreshF
  | setNumChannels _ => exact hb

/-- In every run one of the two flags is up, and both views of every visible
sample have the value that was last written to it, unless its channel was
hidden from a refresh since. -/
theorem views_agree [Zero I] [Zero F] {i2f : I → F} {f2i : F → I}
    (hconv : ∀ x, f2i (i2f x) = x) {ops : List (Op I F)}
    {b : IFChannelBuffer I F frames channels bands} {g : Ghost I}
    (hrun : Run (Step i2f f2i) (.new I F frames channels bands, .new) ops (b, g)) :
    (b.ivalid_ = true ∨ b.fvalid_ = true) ∧
    ∀ channel < b.num_channels, ∀ j < frames, ∀ x,
      g.last (channel * frames + j) = some x → g.missed (channel * frames + j) = false →
      (b.ibufConst f2i).ibuf_.data_[channel * frames + j]? = some x ∧
      (b.fbufConst i2f).fbuf_.data_[channel * frames + j]? = some (i2f x) := by
  have hsync : Synced i2f b g := hrun.invariant (I := fun p => Synced i2f p.1 p.2) synced_new (by
    rintro ⟨b, g⟩ op _ h ⟨hop, rfl⟩
    exact synced_step hconv h hop)
  refine ⟨hsync.valid, fun channel hn j hj x hl hm => read_views hconv hsync ?_ hl hm⟩
  calc channel * frames + j < (channel + 1) * frames := by rw [Nat.succ_mul]; omega
    _ ≤ visible b := Nat.mul_le_mul_right _ hn

/-- Two channels of one sample; both are written as floats and read as
integers. -/
theorem views_agree_two : ∃ (b : IFChannelBuffer ℤ ℤ 1 2 1) (g : Ghost ℤ),
    Run (Step id id) (.new ℤ ℤ 1 2 1, .new) [.fbuf [(0, 3), (1, 5)]] (b, g) ∧
      (b.ibufConst id).ibuf_.data_[1]? = some 5 := by
  have hrun : Run (Step id id) (IFChannelBuffer.new ℤ ℤ 1 2 1, .new) [.fbuf [(0, 3), (1, 5)]]
      _ :=
    .one ⟨fun w _ => ⟨w.2, rfl⟩, rfl⟩
  exact ⟨_, _, hrun,
    ((views_agree (fun _ => rfl) hrun).2 1 (by decide) 0 (by decide) 5 rfl rfl).1⟩

/-- The second channel is hidden while the integers are refreshed. Shown
again, its integer view has the zero from the start. -/
theorem views_differ : ∃ (b : IFChannelBuffer ℤ ℤ 1 2 1) (g : Ghost ℤ),
    Run (Step id id) (.new ℤ ℤ 1 2 1, .new) [.fbuf [(1, 5)], .setNumChannels 1, .ibufConst,
      .setNumChannels 2] (b, g) ∧ b.num_channels = 2 ∧ g.last 1 = some 5 ∧
        (b.ibufConst id).ibuf_.data_[1]? = some 0 ∧
      (b.fbufConst id).fbuf_.data_[1]? = some 5 := by
  have h1 : Run (Step id id) (IFChannelBuffer.new ℤ ℤ 1 2 1, .new) [.fbuf [(1, 5)]] _ :=
    .one ⟨fun w _ => ⟨w.2, rfl⟩, rfl⟩
  have h2 := h1.snoc (a := Op.setNumChannels 1) ⟨(by decide : 1 ≤ 2), rfl⟩
  have h3 := h2.snoc (a := Op.ibufConst) ⟨trivial, rfl⟩
  have h4 := h3.snoc (a := Op.setNumChannels 2) ⟨(by decide : 2 ≤ 2), rfl⟩
  exact ⟨_, _, h4, rfl, rfl, rfl, rfl⟩

end Views
end AgcSpec
