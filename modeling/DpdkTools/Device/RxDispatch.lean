import DpdkTools.Device.RxJob
import Mathlib.Data.List.Basic

/-! What one call of `rx_job::process` does with a burst, as functions of the verdicts alone.

The loop interleaves the lookups with the slice arithmetic on `buffers_`. Here the two are taken
apart: `verdicts` threads the cached lookup through the burst, `actions` says in which slices the
delivered packets are handed over, `deferred` which packets are copied behind the burst.
`loop_spec` proves that the loop computes these, exactly when the deferred packets fit. -/
namespace DpdkTools
set_option autoImplicit false

/-- The verdicts on a burst, each packet seeing the position the one before it left. -/
def verdicts (c : RxCall) (heap : MbufHeap) :
    SinkView → List MbufPtr → Option (SinkView × List (MbufPtr × Verdict))
  | v, [] => some (v, [])
  | v, b :: bs =>
    match classify c v (heap b) with
    | none => none
    | some (v', k) => (verdicts c heap v' bs).map fun r => (r.1, (b, k) :: r.2)

theorem verdicts_cons_some (c : RxCall) (heap : MbufHeap) (v v' : SinkView) (b : MbufPtr)
    (bs : List MbufPtr) (vs : List (MbufPtr × Verdict))
    (h : verdicts c heap v (b :: bs) = some (v', vs)) :
    ∃ v₁ k rest, classify c v (heap b) = some (v₁, k) ∧ verdicts c heap v₁ bs = some (v', rest) ∧
      vs = (b, k) :: rest := by
  rw [verdicts] at h
  cases hcl : classify c v (heap b) with
  | none => simp [hcl] at h
  | some r =>
    obtain ⟨v₁, k⟩ := r
    simp only [hcl, Option.map_eq_some_iff, Prod.mk.injEq] at h
    obtain ⟨⟨v₂, rest⟩, hrest, rfl, rfl⟩ := h
    exact ⟨v₁, k, rest, rfl, hrest, rfl⟩

/-- A slice that is being collected: its channel and its mbufs. -/
abbrev Slice := ChannelPtr × List MbufPtr

def handOver : Option Slice → List RxAction
  | none => []
  | some (ch, bs) => [.enqueue ch bs]

def handOverRecycle (c : RxCall) : Option Slice → List RxAction
  | none => []
  | some (ch, bs) =>
    if c.enqueue ch bs ≠ 0 then [.enqueue ch bs, .freeBulk (bs.take (c.enqueue ch bs))]
    else [.enqueue ch bs]

def nextSlice (cur : Option Slice) (b : MbufPtr) : Verdict → Option Slice
  | .deliver ch =>
    match cur with
    | none => some (ch, [b])
    | some (ch', bs) => if ch' = ch then some (ch, bs ++ [b]) else some (ch, [b])
  | _ => none

def stepActions (c : RxCall) (cur : Option Slice) (b : MbufPtr) : Verdict → List RxAction
  | .broken => .free b :: handOver cur
  | .shortUdp => .free b :: handOver cur
  | .other => handOver cur
  | .deliver ch =>
    match cur with
    | none => []
    | some (ch', bs) => if ch' = ch then [] else handOverRecycle c (some (ch', bs))

/-- The actions of the loop and the flush behind it, from a slice already collected. -/
def actions (c : RxCall) : Option Slice → List (MbufPtr × Verdict) → List RxAction
  | cur, [] => handOver cur
  | cur, (b, k) :: vs => stepActions c cur b k ++ actions c (nextSlice cur b k) vs

def deferred (vs : List (MbufPtr × Verdict)) : List MbufPtr :=
  (vs.filter (·.2 = .other)).map Prod.fst

def delivered (vs : List (MbufPtr × Verdict)) : List (ChannelPtr × MbufPtr) :=
  vs.filterMap fun v =>
    match v.2 with
    | .deliver ch => some (ch, v.1)
    | _ => none

def udpHeap (heap : MbufHeap) (bs : List MbufPtr) : MbufHeap :=
  fun b => if b ∈ bs then Mbuf.setUdpLens (heap b) else heap b

theorem udpHeap_nil (heap : MbufHeap) : udpHeap heap [] = heap := by
  funext b
  simp [udpHeap]

theorem udpHeap_update (heap : MbufHeap) (bs : List MbufPtr) (b : MbufPtr) :
    Function.update (udpHeap heap bs) b (Mbuf.setUdpLens (udpHeap heap bs b)) = udpHeap heap (bs ++ [b]) := by
  funext x
  by_cases hx : x = b
  · subst hx
    by_cases hm : x ∈ bs <;> simp [udpHeap, hm, Mbuf.setUdpLens, Mbuf.ipv4HdrLen]
  · simp [udpHeap, hx]

/-- The verdict does not look at the lengths the loop writes. -/
theorem classify_udpHeap (c : RxCall) (v : SinkView) (heap : MbufHeap) (bs : List MbufPtr)
    (b : MbufPtr) : classify c v (udpHeap heap bs b) = classify c v (heap b) := by
  unfold udpHeap
  split_ifs
  · rfl
  · rfl

theorem deferred_append (us vs : List (MbufPtr × Verdict)) :
    deferred (us ++ vs) = deferred us ++ deferred vs := by
  simp [deferred]

theorem delivered_append (us vs : List (MbufPtr × Verdict)) :
    delivered (us ++ vs) = delivered us ++ delivered vs := by
  simp [delivered]

theorem nextSlice_other (cur : Option Slice) (b : MbufPtr) (ch : ChannelPtr)
    (h : ∀ bs, cur ≠ some (ch, bs)) : nextSlice cur b (.deliver ch) = some (ch, [b]) := by
  cases cur with
  | none => rfl
  | some sl =>
    have hne : sl.1 ≠ ch := fun hsl => h sl.2 (by rw [← hsl])
    simp [nextSlice, hne]

theorem stepActions_other (c : RxCall) (cur : Option Slice) (b : MbufPtr) (ch : ChannelPtr)
    (h : ∀ bs, cur ≠ some (ch, bs)) :
    stepActions c cur b (.deliver ch) = handOverRecycle c cur := by
  cases cur with
  | none => rfl
  | some sl =>
    have hne : sl.1 ≠ ch := fun hsl => h sl.2 (by rw [← hsl])
    simp [stepActions, hne]

/-! ## The state of the loop after `i` packets -/

/-- The burst lies untouched in the lower part of the array, and the slice `cur` being collected
is the end of what was walked over. -/
structure Collects (burst : List MbufPtr) (i : ℕ) (cur : Option Slice) (s : RxLoop) : Prop where
  lower : s.buffers.cells.take burst.length = burst
  burst_le : burst.length ≤ 2 * maxPktBurst
  idle : cur = none → s.channel = none ∧ s.ready = 0
  collecting : ∀ ch bs, cur = some (ch, bs) →
    s.channel = some ch ∧ s.ready = bs.length ∧ bs ≠ [] ∧ bs <:+ burst.take i

/-- Moreover the packets deferred by the verdicts `us` lie behind the burst, and the header lengths
of the delivered ones are written. -/
structure Walk (burst : List MbufPtr) (heap : MbufHeap) (i : ℕ) (cur : Option Slice)
    (us : List (MbufPtr × Verdict)) (s : RxLoop) : Prop extends Collects burst i cur s where
  upper : s.buffers.slice burst.length (deferred us).length = deferred us
  post : s.postProcess = burst.length + (deferred us).length
  fits : burst.length + (deferred us).length ≤ 2 * maxPktBurst
  heap_eq : s.heap = udpHeap heap ((delivered us).map Prod.snd)

namespace Collects
variable {burst : List MbufPtr} {i : ℕ} {cur : Option Slice} {s : RxLoop}

theorem lower_slice (w : Collects burst i cur s) (off len : ℕ) (h : off + len ≤ burst.length) :
    s.buffers.slice off len = (burst.drop off).take len := by
  rw [Slots.slice]
  conv_rhs => rw [← w.lower]
  rw [List.drop_take, List.take_take, Nat.min_eq_left (by omega)]

theorem get (w : Collects burst i cur s) (b : MbufPtr) (hb : burst[i]? = some b) :
    s.buffers.cells[i]? = some b := by
  have hi : i < burst.length := (List.getElem?_eq_some_iff.mp hb).1
  rw [← w.lower, List.getElem?_take_of_lt hi] at hb
  exact hb

theorem slice_front (w : Collects burst i cur s) (hi : i ≤ burst.length) (bs : List MbufPtr)
    (hbs : bs <:+ burst.take i) (r : ℕ) (hr : r ≤ bs.length) :
    s.buffers.slice? (i - bs.length) r = some (bs.take r) := by
  obtain ⟨pre, hpre⟩ := hbs
  have hlen : pre.length + bs.length = i := by
    have := congrArg List.length hpre
    simp only [List.length_append, List.length_take] at this
    omega
  have hle := w.burst_le
  have hoff : i - bs.length = pre.length := by omega
  rw [Slots.slice?, if_pos (by omega), w.lower_slice _ _ (by omega), hoff, Option.some.injEq]
  have hburst : burst = pre ++ bs ++ burst.drop i := by rw [hpre, List.take_append_drop]
  conv_lhs => rw [hburst]
  rw [List.append_assoc, List.drop_left, List.take_append_of_le_length hr]

theorem readySlice_eq (w : Collects burst i cur s) (hi : i ≤ burst.length) (ch : ChannelPtr)
    (bs : List MbufPtr) (hcur : cur = some (ch, bs)) : s.readySlice i = some bs := by
  obtain ⟨_, hready, _, hbs⟩ := w.collecting ch bs hcur
  have hle : bs.length ≤ i := by
    have := hbs.length_le
    rw [List.length_take] at this
    omega
  rw [RxLoop.readySlice, hready, if_pos hle, w.slice_front hi bs hbs _ (Nat.le_refl _),
    List.take_length]

theorem flush_eq (w : Collects burst i cur s) (hi : i ≤ burst.length) :
    s.flush i = some { s with log := s.log ++ handOver cur, channel := none, ready := 0 } := by
  cases hcur : cur with
  | none =>
    obtain ⟨hch, hready⟩ := w.idle hcur
    cases s
    simp only at hch hready
    subst hch hready
    simp [RxLoop.flush, handOver]
  | some sl =>
    obtain ⟨ch, bs⟩ := sl
    obtain ⟨hch, hready, hne, _⟩ := w.collecting ch bs hcur
    have hpos : s.ready ≠ 0 := by rw [hready]; simpa using hne
    simp [RxLoop.flush, hpos, hch, w.readySlice_eq hi ch bs hcur, handOver]

theorem flushRecycle_eq (w : Collects burst i cur s) (hi : i ≤ burst.length) (c : RxCall)
    (hc : ∀ ch bs, c.enqueue ch bs ≤ bs.length) :
    s.flushRecycle c i = some { s with log := s.log ++ handOverRecycle c cur } := by
  cases hcur : cur with
  | none =>
    obtain ⟨_, hready⟩ := w.idle hcur
    cases s
    simp only at hready
    subst hready
    simp [RxLoop.flushRecycle, handOverRecycle]
  | some sl =>
    obtain ⟨ch, bs⟩ := sl
    obtain ⟨hch, hready, hne, hbs⟩ := w.collecting ch bs hcur
    have hpos : s.ready ≠ 0 := by rw [hready]; simpa using hne
    have hslice := w.slice_front hi bs hbs _ (hc ch bs)
    rw [← hready] at hslice
    by_cases h0 : c.enqueue ch bs = 0
    · simp [RxLoop.flushRecycle, hpos, hch, w.readySlice_eq hi ch bs hcur, handOverRecycle, h0]
    · simp [RxLoop.flushRecycle, hpos, hch, w.readySlice_eq hi ch bs hcur, handOverRecycle, h0, hslice]

theorem collecting_of_channel (w : Collects burst i cur s) {ch : ChannelPtr}
    (h : s.channel = some ch) :
    ∃ bs, cur = some (ch, bs) ∧ s.ready = bs.length ∧ bs <:+ burst.take i := by
  cases hcur : cur with
  | none => exact absurd (w.idle hcur).1 (by simp [h])
  | some sl =>
    obtain ⟨ch', bs⟩ := sl
    obtain ⟨hch, hready, _, hbs⟩ := w.collecting ch' bs hcur
    obtain rfl : ch' = ch := by simpa [h] using hch.symm
    exact ⟨bs, rfl, hready, hbs⟩

theorem relog (w : Collects burst i cur s) (v : SinkView) (heap : MbufHeap) (log : List RxAction) :
    Collects burst i cur { s with view := v, heap := heap, log := log } :=
  ⟨w.lower, w.burst_le, w.idle, w.collecting⟩

theorem write (w : Collects burst i cur s) (b : MbufPtr) (j : ℕ) (hj : burst.length ≤ j)
    (buffers : Slots MbufPtr (2 * maxPktBurst)) (h : s.buffers.write j b = some buffers)
    (v : SinkView) (p : ℕ) :
    Collects burst i cur { s with view := v, buffers := buffers, postProcess := p } := by
  refine ⟨?_, w.burst_le, w.idle, w.collecting⟩
  rw [Slots.write] at h
  split_ifs at h
  obtain rfl := Option.some.inj h
  simp only
  rw [List.take_set_of_le hj]
  exact w.lower

end Collects

namespace Walk
variable {burst : List MbufPtr} {heap : MbufHeap} {i : ℕ} {cur : Option Slice}
  {us : List (MbufPtr × Verdict)} {s : RxLoop}

theorem step_freed (w : Walk burst heap i cur us s) (b : MbufPtr) (k : Verdict) (v : SinkView)
    (log : List RxAction) (hdef : deferred [(b, k)] = []) (hdel : delivered [(b, k)] = []) :
    Walk burst heap (i + 1) none (us ++ [(b, k)])
      { s with view := v, log := log, channel := none, ready := 0 } where
  toCollects := ⟨w.lower, w.burst_le, fun _ => ⟨rfl, rfl⟩, fun _ _ h => absurd h (by simp)⟩
  upper := by rw [deferred_append, hdef, List.append_nil]; exact w.upper
  post := by rw [deferred_append, hdef, List.append_nil]; exact w.post
  fits := by rw [deferred_append, hdef, List.append_nil]; exact w.fits
  heap_eq := by rw [delivered_append, hdel, List.append_nil]; exact w.heap_eq

theorem step_deferred (w : Walk burst heap i cur us s) (b : MbufPtr) (v : SinkView)
    (log : List RxAction) (hroom : burst.length + (deferred us).length < 2 * maxPktBurst) :
    ∃ buffers, s.buffers.write s.postProcess b = some buffers ∧
      Walk burst heap (i + 1) none (us ++ [(b, .other)])
        ⟨v, s.heap, buffers, none, 0, s.postProcess + 1, log⟩ := by
  have hcells := s.buffers.length_cells
  have hpost := w.post
  have hdef : deferred [(b, Verdict.other)] = [b] := by simp [deferred]
  have hdel : delivered [(b, Verdict.other)] = [] := by simp [delivered]
  refine ⟨⟨s.buffers.cells.set s.postProcess b, by simp [hcells]⟩, ?_, ?_⟩
  · rw [Slots.write, if_pos (by omega)]
  · refine ⟨⟨?_, w.burst_le, fun _ => ⟨rfl, rfl⟩, fun _ _ h => absurd h (by simp)⟩, ?_, ?_, ?_, ?_⟩
    · rw [List.take_set_of_le (by omega)]
      exact w.lower
    · have hup : (s.buffers.cells.drop burst.length).take (deferred us).length = deferred us := w.upper
      rw [deferred_append, hdef, List.length_append, List.length_singleton, Slots.slice]
      simp only
      rw [hpost, List.drop_set, if_neg (by omega), Nat.add_sub_cancel_left,
        take_set_succ _ _ _ (by rw [List.length_drop, hcells]; omega), hup]
    · rw [deferred_append, hdef, List.length_append, List.length_singleton, hpost, Nat.add_assoc]
    · rw [deferred_append, hdef, List.length_append, List.length_singleton]
      omega
    · rw [delivered_append, hdel, List.append_nil]
      exact w.heap_eq

theorem step_delivered (w : Walk burst heap i cur us s) (b : MbufPtr) (ch : ChannelPtr) (v : SinkView)
    (log : List RxAction) (hb : burst[i]? = some b) (bs : List MbufPtr)
    (hbs : bs <:+ burst.take i) :
    Walk burst heap (i + 1) (some (ch, bs ++ [b])) (us ++ [(b, .deliver ch)])
      ⟨v, Function.update s.heap b (Mbuf.setUdpLens (s.heap b)), s.buffers, some ch, bs.length + 1,
        s.postProcess, log⟩ := by
  have hdef : deferred [(b, Verdict.deliver ch)] = [] := by simp [deferred]
  have hdel : delivered [(b, Verdict.deliver ch)] = [(ch, b)] := by simp [delivered]
  refine ⟨⟨w.lower, w.burst_le, fun h => absurd h (by simp), ?_⟩, ?_, ?_, ?_, ?_⟩
  · intro ch' bs' h
    simp only [Option.some.injEq, Prod.mk.injEq] at h
    obtain ⟨rfl, rfl⟩ := h
    refine ⟨rfl, by simp, by simp, ?_⟩
    obtain ⟨pre, hpre⟩ := hbs
    exact ⟨pre, by rw [List.take_add_one, hb, ← hpre]; simp⟩
  · rw [deferred_append, hdef, List.append_nil]
    exact w.upper
  · rw [deferred_append, hdef, List.append_nil]
    exact w.post
  · rw [deferred_append, hdef, List.append_nil]
    exact w.fits
  · rw [delivered_append, hdel, List.map_append, List.map_singleton, w.heap_eq, udpHeap_update]

/-- One iteration: it does what its verdict says, unless a deferred packet finds no room. -/
theorem step_spec (w : Walk burst heap i cur us s) (c : RxCall)
    (hc : ∀ ch bs, c.enqueue ch bs ≤ bs.length) (b : MbufPtr) (hb : burst[i]? = some b)
    (v : SinkView) (k : Verdict) (hcl : classify c s.view (heap b) = some (v, k))
    (hroom : burst.length + (deferred (us ++ [(b, k)])).length ≤ 2 * maxPktBurst) :
    ∃ t, s.step c i = some t ∧ t.view = v ∧ t.log = s.log ++ stepActions c cur b k ∧
      Walk burst heap (i + 1) (nextSlice cur b k) (us ++ [(b, k)]) t := by
  have hi : i ≤ burst.length := Nat.le_of_lt (List.getElem?_eq_some_iff.mp hb).1
  have hstep : s.step c i = RxLoop.act { s with view := v } c i b k := by
    rw [RxLoop.step, w.get b hb]
    simp only [w.heap_eq, classify_udpHeap, hcl]
  rw [hstep]
  cases k with
  | broken =>
    have hflush := (w.toCollects.relog v s.heap (s.log ++ [.free b])).flush_eq hi
    exact ⟨_, hflush, rfl, by simp [stepActions], w.step_freed b _ v _ (by simp [deferred])
      (by simp [delivered])⟩
  | shortUdp =>
    have hflush := (w.toCollects.relog v s.heap (s.log ++ [.free b])).flush_eq hi
    exact ⟨_, hflush, rfl, by simp [stepActions], w.step_freed b _ v _ (by simp [deferred])
      (by simp [delivered])⟩
  | other =>
    have hdef : deferred [(b, Verdict.other)] = [b] := by simp [deferred]
    rw [deferred_append, hdef, List.length_append, List.length_singleton] at hroom
    obtain ⟨buffers, hwrite, hwalk⟩ := w.step_deferred b v (s.log ++ handOver cur) (by omega)
    refine ⟨_, ?_, rfl, rfl, hwalk⟩
    -- the slice lies in the lower part, so the write behind the burst does not touch it
    have hflush := (w.toCollects.write b s.postProcess (by rw [w.post]; omega) buffers hwrite v
      (s.postProcess + 1)).flush_eq hi
    simp only [RxLoop.act, hwrite, Option.bind_some]
    exact hflush
  | deliver ch =>
    by_cases hch : s.channel = some ch
    · obtain ⟨bs, hcur, hready, hbs⟩ := w.collecting_of_channel hch
      have hwalk := w.step_delivered b ch v s.log hb bs hbs
      refine ⟨⟨v, Function.update s.heap b (Mbuf.setUdpLens (s.heap b)), s.buffers, some ch,
        bs.length + 1, s.postProcess, s.log⟩, ?_, rfl, ?_, ?_⟩
      · simp [RxLoop.act, hch, hready]
      · simp [stepActions, hcur]
      · simpa [nextSlice, hcur] using hwalk
    · have hother : ∀ bs, cur ≠ some (ch, bs) := fun bs h => hch (w.collecting ch bs h).1
      have hacts := stepActions_other c cur b ch hother
      have hnext := nextSlice_other cur b ch hother
      have hwalk := w.step_delivered b ch v (s.log ++ handOverRecycle c cur) hb [] List.nil_suffix
      have hflush := (w.toCollects.relog v (Function.update s.heap b (Mbuf.setUdpLens (s.heap b)))
        s.log).flushRecycle_eq hi c hc
      refine ⟨⟨v, Function.update s.heap b (Mbuf.setUdpLens (s.heap b)), s.buffers, some ch, 1,
        s.postProcess, s.log ++ handOverRecycle c cur⟩, ?_, rfl, ?_, ?_⟩
      · simp only [RxLoop.act, ne_eq, hch, not_false_eq_true, if_true, hflush, Option.map_some]
      · rw [hacts]
      · rw [hnext]
        exact hwalk

/-- An iteration has no result when the lookup has none, or when no cell is left for `b`. -/
theorem step_stuck (w : Walk burst heap i cur us s) (c : RxCall) (b : MbufPtr)
    (hb : burst[i]? = some b)
    (h : ∀ v k, classify c s.view (heap b) = some (v, k) →
      2 * maxPktBurst < burst.length + (deferred (us ++ [(b, k)])).length) :
    s.step c i = none := by
  rw [RxLoop.step, w.get b hb]
  simp only [w.heap_eq, classify_udpHeap]
  cases hcl : classify c s.view (heap b) with
  | none => rfl
  | some r =>
    obtain ⟨v, k⟩ := r
    have hover := h v k hcl
    have hfits := w.fits
    rw [deferred_append, List.length_append] at hover
    cases k with
    | other =>
      have hdef : deferred [(b, Verdict.other)] = [b] := by simp [deferred]
      rw [hdef, List.length_singleton] at hover
      have hwrite : s.buffers.write s.postProcess b = none := by
        rw [Slots.write, if_neg (by rw [w.post]; omega)]
      simp [RxLoop.act, hwrite]
    | broken =>
      have hdef : deferred [(b, Verdict.broken)] = [] := by simp [deferred]
      rw [hdef, List.length_nil] at hover
      omega
    | shortUdp =>
      have hdef : deferred [(b, Verdict.shortUdp)] = [] := by simp [deferred]
      rw [hdef, List.length_nil] at hover
      omega
    | deliver ch =>
      have hdef : deferred [(b, Verdict.deliver ch)] = [] := by simp [deferred]
      rw [hdef, List.length_nil] at hover
      omega

/-- The loop over the rest of the burst, when the deferred packets fit behind it. -/
theorem loop_spec (c : RxCall) (hc : ∀ ch bs, c.enqueue ch bs ≤ bs.length) (rest : List MbufPtr) :
    ∀ (i : ℕ) (cur : Option Slice) (us : List (MbufPtr × Verdict)) (s : RxLoop) (v : SinkView)
      (vs : List (MbufPtr × Verdict)),
      Walk burst heap i cur us s → burst.drop i = rest → i ≤ burst.length →
      verdicts c heap s.view rest = some (v, vs) →
      burst.length + (deferred (us ++ vs)).length ≤ 2 * maxPktBurst →
      ∃ t cur', RxLoop.loop c rest.length i s = some t ∧ t.view = v ∧
        t.log ++ handOver cur' = s.log ++ actions c cur vs ∧
        Walk burst heap burst.length cur' (us ++ vs) t := by
  induction rest with
  | nil =>
    intro i cur us s v vs w hrest hi hv _
    have hend : i = burst.length := by
      have := congrArg List.length hrest
      rw [List.length_drop, List.length_nil] at this
      omega
    simp only [verdicts, Option.some.injEq, Prod.mk.injEq] at hv
    obtain ⟨rfl, rfl⟩ := hv
    refine ⟨s, cur, rfl, rfl, rfl, ?_⟩
    rw [List.append_nil, ← hend]
    exact w
  | cons b rest ih =>
    intro i cur us s v vs w hrest hi hv hroom
    have hb : burst[i]? = some b := by
      have := congrArg (·[0]?) hrest
      simpa using this
    have hlt : i < burst.length := (List.getElem?_eq_some_iff.mp hb).1
    obtain ⟨v₁, k, vs₂, hcl, hv₂, rfl⟩ := verdicts_cons_some c heap s.view v b rest vs hv
    have happ : us ++ (b, k) :: vs₂ = (us ++ [(b, k)]) ++ vs₂ := by simp
    rw [happ] at hroom ⊢
    have hroom₁ : burst.length + (deferred (us ++ [(b, k)])).length ≤ 2 * maxPktBurst := by
      rw [deferred_append, List.length_append] at hroom
      omega
    obtain ⟨t, ht, htv, htlog, hw⟩ := w.step_spec c hc b hb v₁ k hcl hroom₁
    have hdrop : burst.drop (i + 1) = rest := by rw [← List.tail_drop, hrest, List.tail_cons]
    obtain ⟨t', cur', hloop, hview, hlog, hw'⟩ :=
      ih (i + 1) _ _ t v vs₂ hw hdrop hlt (by rw [htv]; exact hv₂) hroom
    refine ⟨t', cur', ?_, hview, ?_, hw'⟩
    · rw [List.length_cons, RxLoop.loop, ht]
      exact hloop
    · rw [hlog, htlog, actions, List.append_assoc]

/-- The loop has no result when a lookup has none or the deferred packets do not fit. -/
theorem loop_stuck (c : RxCall) (hc : ∀ ch bs, c.enqueue ch bs ≤ bs.length) (rest : List MbufPtr) :
    ∀ (i : ℕ) (cur : Option Slice) (us : List (MbufPtr × Verdict)) (s : RxLoop),
      Walk burst heap i cur us s → burst.drop i = rest →
      (∀ v vs, verdicts c heap s.view rest = some (v, vs) →
        2 * maxPktBurst < burst.length + (deferred (us ++ vs)).length) →
      RxLoop.loop c rest.length i s = none := by
  induction rest with
  | nil =>
    intro i cur us s w _ hover
    have := hover s.view [] rfl
    have hfits := w.fits
    rw [List.append_nil] at this
    omega
  | cons b rest ih =>
    intro i cur us s w hrest hover
    have hb : burst[i]? = some b := by
      have := congrArg (·[0]?) hrest
      simpa using this
    have hdrop : burst.drop (i + 1) = rest := by rw [← List.tail_drop, hrest, List.tail_cons]
    rw [List.length_cons, RxLoop.loop]
    by_cases hok : ∃ v k, classify c s.view (heap b) = some (v, k) ∧
        burst.length + (deferred (us ++ [(b, k)])).length ≤ 2 * maxPktBurst
    · obtain ⟨v₁, k, hcl, hroom⟩ := hok
      obtain ⟨t, ht, htv, _, hw⟩ := w.step_spec c hc b hb v₁ k hcl hroom
      rw [ht]
      refine ih (i + 1) _ _ t hw hdrop ?_
      intro v vs hv
      have := hover v ((b, k) :: vs) (by simp [verdicts, hcl, ← htv, hv])
      simpa using this
    · rw [w.step_stuck c b hb]
      · rfl
      · intro v k hcl
        by_contra hle
        exact hok ⟨v, k, hcl, by omega⟩

end Walk

/-! ## The whole call -/

def settle (c : RxCall) (heap : MbufHeap) (arp : ArpTable) (burstSize n : ℕ) (v : SinkView)
    (vs : List (MbufPtr × Verdict)) : RxOutcome :=
  let heap' := udpHeap heap ((delivered vs).map Prod.snd)
  let given := deferred vs
  let packets := processRxPackets c.env heap' arp given
  if given = [] then ⟨v.advance 1, actions c none vs, heap', [], ⟨heap', arp, [], 0, []⟩, .idling⟩
  else
    { view :=
        (if n = given.length ∧ given.length ≠ burstSize then v.advance (2 * burstSize) else v).advance 1
      actions :=
        if packets.used ≠ 0 then actions c none vs ++ [.freeBulk (packets.buffers.take packets.used)]
        else actions c none vs
      heap := heap'
      given := given
      packets := packets
      state := .idling }

theorem Walk.finish_eq {burst : List MbufPtr} {heap : MbufHeap} {cur : Option Slice}
    {vs : List (MbufPtr × Verdict)} {t : RxLoop} (w : Walk burst heap burst.length cur vs t)
    (c : RxCall) (arp : ArpTable) (burstSize : ℕ) (hlog : t.log ++ handOver cur = actions c none vs) :
    t.finish c arp burstSize burst.length = some (settle c heap arp burstSize burst.length t.view vs) := by
  have hpost := w.post
  have hfits := w.fits
  rw [RxLoop.finish, w.toCollects.flush_eq (Nat.le_refl _), settle]
  simp only [hlog, hpost, w.heap_eq, Nat.add_sub_cancel_left]
  by_cases hnil : deferred vs = []
  · simp [hnil]
  · have hlen : (deferred vs).length ≠ 0 := by simpa using hnil
    have hslice : t.buffers.slice? burst.length (deferred vs).length = some (deferred vs) := by
      rw [Slots.slice?, if_pos (by omega), w.upper]
    rw [if_pos (by omega), hslice, if_neg hnil, Option.map_some]

section process
variable (j : RxJob) (c : RxCall) (heap heap' : MbufHeap) (arp : ArpTable) (burst : List MbufPtr)

theorem walk_start (h : 0 + burst.length ≤ 2 * maxPktBurst) (view : SinkView) :
    Walk burst heap' 0 none []
      ⟨view, heap', j.buffers.store 0 burst h, none, 0, burst.length, []⟩ where
  lower := by simpa [Slots.front] using Slots.front_store j.buffers 0 burst h
  burst_le := by omega
  idle := fun _ => ⟨rfl, rfl⟩
  collecting := fun _ _ h => absurd h (by simp)
  upper := by simp [Slots.slice, deferred]
  post := by simp [deferred]
  fits := by simp only [deferred, List.filter_nil, List.map_nil, List.length_nil]; omega
  heap_eq := by simp [delivered, udpHeap_nil]

/-- A call on a burst whose tag loops end: the outcome is the one the verdicts give, and there is
one exactly when every lookup has a result and the deferred packets fit behind the burst. -/
theorem process_spec (hne : burst ≠ []) (hle : burst.length ≤ j.burstSize)
    (hl2 : updateL2sizes heap burst = some heap')
    (hc : ∀ ch bs, c.enqueue ch bs ≤ bs.length) :
    j.process c heap arp burst =
      (verdicts c heap' (j.view.tryReloadSinks c.published).1 burst).bind fun r =>
        if burst.length + (deferred r.2).length ≤ 2 * maxPktBurst then
          some (settle c heap' arp j.burstSize burst.length r.1 r.2)
        else none := by
  have hburst := j.burst_le
  have w := walk_start j heap' burst (by omega) (j.view.tryReloadSinks c.published).1
  rw [RxJob.process]
  simp only [hne, if_false, hle, dif_pos, hl2]
  cases hv : verdicts c heap' (j.view.tryReloadSinks c.published).1 burst with
  | none =>
    rw [Walk.loop_stuck c hc burst 0 none [] _ w rfl (by intro v vs h; simp [hv] at h)]
    rfl
  | some r =>
    obtain ⟨v, vs⟩ := r
    simp only [Option.bind_some]
    by_cases hroom : burst.length + (deferred vs).length ≤ 2 * maxPktBurst
    · obtain ⟨t, cur, hloop, hview, hlog, hw⟩ :=
        Walk.loop_spec c hc burst 0 none [] _ v vs w rfl (Nat.zero_le _) hv hroom
      rw [List.nil_append] at hlog hw
      rw [hloop, if_pos hroom]
      simp only
      rw [hw.finish_eq c arp j.burstSize hlog, hview]
    · rw [if_neg hroom, Walk.loop_stuck c hc burst 0 none [] _ w rfl]
      intro v' vs' h
      simp only [hv, Option.some.injEq, Prod.mk.injEq] at h
      obtain ⟨_, rfl⟩ := h
      rw [List.nil_append]
      omega

end process

end DpdkTools
