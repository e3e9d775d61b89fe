import DpdkTools.Device.RxOwnership
import DpdkTools.Device.StalePackets

/-! Two calls of `rx_job::process` on bursts with the same data.

Runts may be freed at once in one call and behind `process_rx_packets` in the other. Everything
else is done alike as long as no frame is of the three kinds by whose stale bytes a call decides. -/
namespace DpdkTools
set_option autoImplicit false

/-! ## The loop over a burst -/

/-- The two verdicts on a packet agree, or it is a runt and neither hands it to a channel. -/
def SameVerdict (runt : MbufPtr → Bool) (x y : MbufPtr × Verdict) : Prop :=
  x = y ∨ x.1 = y.1 ∧ runt x.1 = true ∧ (∀ ch, x.2 ≠ .deliver ch) ∧ ∀ ch, y.2 ≠ .deliver ch

section Verdicts
variable (c : RxCall) (runt : MbufPtr → Bool)

/-- What a packet that goes to no channel does to the slices. -/
theorem undelivered_step (cur : Option Slice) (b : MbufPtr) (k : Verdict) (hk : ∀ ch, k ≠ .deliver ch) :
    kept c.enqueue (stepActions c cur b k) = kept c.enqueue (handOver cur) ∧
      nextSlice cur b k = none ∧ dropped cur k = cur.toList := by
  cases k with
  | deliver ch => exact absurd rfl (hk ch)
  | broken => exact ⟨rfl, rfl, rfl⟩
  | shortUdp => exact ⟨rfl, rfl, rfl⟩
  | other => exact ⟨rfl, rfl, rfl⟩

theorem sameVerdict_step (cur : Option Slice) (x y : MbufPtr × Verdict) (h : SameVerdict runt x y) :
    kept c.enqueue (stepActions c cur x.1 x.2) = kept c.enqueue (stepActions c cur y.1 y.2) ∧
      nextSlice cur x.1 x.2 = nextSlice cur y.1 y.2 ∧ dropped cur x.2 = dropped cur y.2 := by
  obtain rfl | ⟨_, _, hx, hy⟩ := h
  · exact ⟨rfl, rfl, rfl⟩
  · obtain ⟨hkx, hnx, hdx⟩ := undelivered_step c cur x.1 x.2 hx
    obtain ⟨hky, hny, hdy⟩ := undelivered_step c cur y.1 y.2 hy
    exact ⟨hkx.trans hky.symm, hnx.trans hny.symm, hdx.trans hdy.symm⟩

theorem sameVerdict_delivered (x y : MbufPtr × Verdict) (h : SameVerdict runt x y) :
    delivered [x] = delivered [y] := by
  obtain rfl | ⟨_, _, hx, hy⟩ := h
  · rfl
  · have hnil : ∀ z : MbufPtr × Verdict, (∀ ch, z.2 ≠ .deliver ch) → delivered [z] = [] := by
      intro z hz
      obtain ⟨b, k⟩ := z
      cases k with
      | deliver ch => exact absurd rfl (hz ch)
      | broken => rfl
      | shortUdp => rfl
      | other => rfl
    rw [hnil x hx, hnil y hy]

theorem sameVerdict_deferred (x y : MbufPtr × Verdict) (h : SameVerdict runt x y) :
    (deferred [x]).filter (!runt ·) = (deferred [y]).filter (!runt ·) := by
  obtain rfl | ⟨hfst, hr, _, _⟩ := h
  · rfl
  · have hnil : ∀ z : MbufPtr × Verdict, runt z.1 = true → (deferred [z]).filter (!runt ·) = [] := by
      intro z hz
      by_cases hk : z.2 = .other
      · simp [deferred, hk, hz]
      · simp [deferred, hk]
    rw [hnil x hr, hnil y (hfst ▸ hr)]

theorem slices_same (vs vs' : List (MbufPtr × Verdict)) (h : List.Forall₂ (SameVerdict runt) vs vs') :
    ∀ cur, kept c.enqueue (actions c cur vs) = kept c.enqueue (actions c cur vs') ∧
      unrecycled cur vs = unrecycled cur vs' := by
  induction h with
  | nil =>
    intro cur
    exact ⟨rfl, rfl⟩
  | @cons x y vs vs' hxy _ ih =>
    intro cur
    obtain ⟨hkept, hnext, hdrop⟩ := sameVerdict_step c runt cur x y hxy
    obtain ⟨hkept', hdrop'⟩ := ih (nextSlice cur y.1 y.2)
    rw [actions, actions, kept_append, kept_append, unrecycled, unrecycled, hkept, hnext, hdrop,
      hkept', hdrop']
    exact ⟨rfl, rfl⟩

theorem delivered_same (vs vs' : List (MbufPtr × Verdict))
    (h : List.Forall₂ (SameVerdict runt) vs vs') : delivered vs = delivered vs' := by
  induction h with
  | nil => rfl
  | @cons x y vs vs' hxy _ ih =>
    have hx : delivered (x :: vs) = delivered [x] ++ delivered vs := delivered_append [x] vs
    have hy : delivered (y :: vs') = delivered [y] ++ delivered vs' := delivered_append [y] vs'
    rw [hx, hy, ih, sameVerdict_delivered runt x y hxy]

theorem deferred_same (vs vs' : List (MbufPtr × Verdict))
    (h : List.Forall₂ (SameVerdict runt) vs vs') :
    (deferred vs).filter (!runt ·) = (deferred vs').filter (!runt ·) := by
  induction h with
  | nil => rfl
  | @cons x y vs vs' hxy _ ih =>
    have hx : deferred (x :: vs) = deferred [x] ++ deferred vs := deferred_append [x] vs
    have hy : deferred (y :: vs') = deferred [y] ++ deferred vs' := deferred_append [y] vs'
    rw [hx, hy, List.filter_append, List.filter_append, ih, sameVerdict_deferred runt x y hxy]

/-- Two heaps on which every packet is looked up alike, or is a runt in both. -/
def SameLookups (heap heap' : MbufHeap) (b : MbufPtr) : Prop :=
  (∀ v, classify c v (heap' b) = classify c v (heap b)) ∨
    runt b = true ∧ (∀ v, ∃ k, classify c v (heap b) = some (v, k) ∧ ∀ ch, k ≠ .deliver ch) ∧
      ∀ v, ∃ k, classify c v (heap' b) = some (v, k) ∧ ∀ ch, k ≠ .deliver ch

theorem verdicts_cons (heap : MbufHeap) (v v₁ : SinkView) (b : MbufPtr) (k : Verdict)
    (bs : List MbufPtr) (h : classify c v (heap b) = some (v₁, k)) :
    verdicts c heap v (b :: bs) = (verdicts c heap v₁ bs).map fun r => (r.1, (b, k) :: r.2) := by
  rw [verdicts, h]

/-- The lookups of a call are the same in both runs, and so the verdicts, up to runts. -/
theorem verdicts_same (heap heap' : MbufHeap) (bs : List MbufPtr) :
    ∀ v, (∀ b ∈ bs, SameLookups c runt heap heap' b) →
      verdicts c heap v bs = none ∧ verdicts c heap' v bs = none ∨
        ∃ v' vs vs', verdicts c heap v bs = some (v', vs) ∧ verdicts c heap' v bs = some (v', vs') ∧
          List.Forall₂ (SameVerdict runt) vs vs' := by
  induction bs with
  | nil =>
    intro v _
    exact Or.inr ⟨v, [], [], rfl, rfl, .nil⟩
  | cons b bs ih =>
    intro v hbs
    have htail : ∀ v₁ k k', classify c v (heap b) = some (v₁, k) →
        classify c v (heap' b) = some (v₁, k') → SameVerdict runt (b, k) (b, k') →
        verdicts c heap v (b :: bs) = none ∧ verdicts c heap' v (b :: bs) = none ∨
          ∃ v' vs vs', verdicts c heap v (b :: bs) = some (v', vs) ∧
            verdicts c heap' v (b :: bs) = some (v', vs') ∧
            List.Forall₂ (SameVerdict runt) vs vs' := by
      intro v₁ k k' hk hk' hsame
      rw [verdicts_cons c heap v v₁ b k bs hk, verdicts_cons c heap' v v₁ b k' bs hk']
      obtain ⟨hn, hn'⟩ | ⟨v', vs, vs', hv, hv', hall⟩ :=
        ih v₁ (fun x hx => hbs x (List.mem_cons_of_mem b hx))
      · exact Or.inl ⟨by rw [hn]; rfl, by rw [hn']; rfl⟩
      · exact Or.inr ⟨v', (b, k) :: vs, (b, k') :: vs', by rw [hv]; rfl, by rw [hv']; rfl,
          .cons hsame hall⟩
    obtain hsame | ⟨hr, hrunt, hrunt'⟩ := hbs b (List.mem_cons_self ..)
    · cases hk : classify c v (heap b) with
      | none =>
        rw [verdicts, verdicts, hsame v, hk]
        exact Or.inl ⟨rfl, rfl⟩
      | some r =>
        obtain ⟨v₁, k⟩ := r
        exact htail v₁ k k hk ((hsame v).trans hk) (Or.inl rfl)
    · obtain ⟨k, hk, hno⟩ := hrunt v
      obtain ⟨k', hk', hno'⟩ := hrunt' v
      exact htail v k k' hk hk' (Or.inr ⟨rfl, hr, hno, hno'⟩)

end Verdicts

/-! ## The packets that go to no channel -/

/-- A measured packet in both runs. -/
inductive SamePacket (env : RxEnv) (m m' : Mbuf) : Prop where
  | runt (h : m.runt = true) (h' : m'.runt = true) (hudp : ¬ HeaderlessUdp m)
      (hudp' : ¬ HeaderlessUdp m')
  | whole (h : m.runt = false) (hl2 : 2 ≤ m.l2Len)
      (hhdr : 14 ≤ m.l2Len ∨ m.l2Len + 60 ≤ m.dataLen) (hecho : ¬ TruncatedEcho env m)
      (hsame : SameData m m')

theorem SamePacket.lookups {c : RxCall} {heap heap' : MbufHeap} {b : MbufPtr}
    (h : SamePacket c.env (heap b) (heap' b)) :
    SameLookups c (fun b => (heap b).runt) heap heap' b := by
  cases h with
  | runt hr hr' hudp hudp' =>
    exact Or.inr ⟨hr, fun v => classify_runt c v _ hr hudp, fun v => classify_runt c v _ hr' hudp'⟩
  | whole hr hl2 _ _ hsame =>
    obtain ⟨data', hsame, heq⟩ := hsame
    refine Or.inl ?_
    intro v
    rw [heq]
    exact classify_same c v (heap b) data' hsame hl2 hr

section Packets
variable (env : RxEnv)

/-- Runts do not take part in `process_rx_packets`. -/
theorem splitRxPackets_runts (runt : MbufPtr → Bool) (bs : List MbufPtr) :
    ∀ heap arp, (∀ b ∈ bs, runt b = true → (heap b).runt = true) →
      (splitRxPackets env heap arp bs).ringed =
          (splitRxPackets env heap arp (bs.filter (!runt ·))).ringed ∧
        (splitRxPackets env heap arp bs).arp =
          (splitRxPackets env heap arp (bs.filter (!runt ·))).arp ∧
        (splitRxPackets env heap arp bs).heap =
          (splitRxPackets env heap arp (bs.filter (!runt ·))).heap := by
  induction bs with
  | nil =>
    intro heap arp _
    exact ⟨rfl, rfl, rfl⟩
  | cons b bs ih =>
    intro heap arp hbs
    have htail : ∀ x ∈ bs, runt x = true → (heap x).runt = true :=
      fun x hx => hbs x (List.mem_cons_of_mem b hx)
    cases hb : runt b with
    | true =>
      have hleft := processRxPacket_runt env arp b (heap b) (hbs b (List.mem_cons_self ..) hb)
      have hfilter : (b :: bs).filter (!runt ·) = bs.filter (!runt ·) := by simp [hb]
      obtain ⟨hring, harp, hheap⟩ := ih heap arp htail
      rw [hfilter, splitRxPackets]
      simp only [hleft, Function.update_eq_self, Bool.false_and, Bool.false_eq_true, if_false]
      exact ⟨hring, harp, hheap⟩
    | false =>
      have hfilter : (b :: bs).filter (!runt ·) = b :: bs.filter (!runt ·) := by simp [hb]
      obtain ⟨hring, harp, hheap⟩ :=
        ih (Function.update heap b (processRxPacket env arp b (heap b)).1)
          (processRxPacket env arp b (heap b)).2.1 (by
            intro x hx hr
            have hne : x ≠ b := by
              rintro rfl
              exact absurd hr (by simp [hb])
            rw [Function.update_of_ne hne]
            exact htail x hx hr)
      rw [hfilter, splitRxPackets, splitRxPackets]
      split_ifs
      · exact ⟨congrArg (b :: ·) hring, harp, hheap⟩
      · exact ⟨hring, harp, hheap⟩

theorem splitRxPackets_heap (bs : List MbufPtr) :
    ∀ heap arp x, x ∉ bs → (splitRxPackets env heap arp bs).heap x = heap x := by
  induction bs with
  | nil =>
    intro heap arp x _
    rfl
  | cons b bs ih =>
    intro heap arp x hx
    have hne : x ≠ b := fun h => hx (h ▸ List.mem_cons_self ..)
    have htail := ih (Function.update heap b (processRxPacket env arp b (heap b)).1)
      (processRxPacket env arp b (heap b)).2.1 x (fun h => hx (List.mem_cons_of_mem b h))
    rw [Function.update_of_ne hne] at htail
    rw [splitRxPackets]
    split_ifs
    · exact htail
    · exact htail

/-- Of the others, the same are answered, with the same data, and the same is learnt. -/
theorem splitRxPackets_same (hck : ReadsHeaderOnly env.rteIpv4Cksum)
    (hmac : env.config.macAddr.length = 6) (bs : List MbufPtr) :
    ∀ heap heap' arp, bs.Nodup →
      (∀ b ∈ bs, (heap b).runt = false ∧ SamePacket env (heap b) (heap' b)) →
      (splitRxPackets env heap arp bs).ringed = (splitRxPackets env heap' arp bs).ringed ∧
        (splitRxPackets env heap arp bs).arp = (splitRxPackets env heap' arp bs).arp ∧
        ∀ b ∈ bs, SameData ((splitRxPackets env heap arp bs).heap b)
          ((splitRxPackets env heap' arp bs).heap b) := by
  induction bs with
  | nil =>
    intro heap heap' arp _ _
    exact ⟨rfl, rfl, fun b hb => absurd hb List.not_mem_nil⟩
  | cons b bs ih =>
    intro heap heap' arp hnodup hbs
    obtain ⟨hb, hnodup⟩ := List.nodup_cons.mp hnodup
    obtain ⟨hrunt, hpacket⟩ := hbs b (List.mem_cons_self ..)
    have hstep : (processRxPacket env arp b (heap' b)).2 = (processRxPacket env arp b (heap b)).2 ∧
        SameData (processRxPacket env arp b (heap b)).1 (processRxPacket env arp b (heap' b)).1 := by
      cases hpacket with
      | runt hr => exact absurd (hrunt.symm.trans hr) Bool.false_ne_true
      | whole hr hl2 hhdr hecho hsame =>
        obtain ⟨data', hsame, heq⟩ := hsame
        rw [heq]
        exact processRxPacket_same env arp b (heap b) data' hsame hck hmac hl2 hhdr hr hecho
    obtain ⟨hring, harp, hheap⟩ :=
      ih (Function.update heap b (processRxPacket env arp b (heap b)).1)
        (Function.update heap' b (processRxPacket env arp b (heap' b)).1)
        (processRxPacket env arp b (heap b)).2.1 hnodup (by
          intro x hx
          have hne : x ≠ b := fun h => hb (h ▸ hx)
          rw [Function.update_of_ne hne, Function.update_of_ne hne]
          exact hbs x (List.mem_cons_of_mem b hx))
    have hheap' : ∀ x ∈ b :: bs, SameData
        ((splitRxPackets env (Function.update heap b (processRxPacket env arp b (heap b)).1)
          (processRxPacket env arp b (heap b)).2.1 bs).heap x)
        ((splitRxPackets env (Function.update heap' b (processRxPacket env arp b (heap' b)).1)
          (processRxPacket env arp b (heap b)).2.1 bs).heap x) := by
      intro x hx
      obtain rfl | hx := List.mem_cons.mp hx
      · rw [splitRxPackets_heap env bs _ _ x hb, splitRxPackets_heap env bs _ _ x hb,
          Function.update_self, Function.update_self]
        exact hstep.2
      · exact hheap x hx
    rw [splitRxPackets, splitRxPackets, hstep.1]
    split_ifs
    · exact ⟨congrArg (b :: ·) hring, harp, hheap'⟩
    · exact ⟨hring, harp, hheap'⟩

end Packets

/-! ## Both runs -/

/-- A frame by whose data alone a call decides. -/
structure StaleFree (env : RxEnv) (m : Mbuf) : Prop where
  tags : ¬ m.EndsInTag
  udp : ∀ r, m.updateL2size = some r → ¬ HeaderlessUdp r.1
  echo : ∀ r, m.updateL2size = some r → ¬ TruncatedEcho env r.1

theorem StaleFree.measured {env : RxEnv} {m m' : Mbuf} (h : StaleFree env m) (hsame : SameData m m') :
    m.updateL2size = none ∧ m'.updateL2size = none ∨
      ∃ r r', m.updateL2size = some r ∧ m'.updateL2size = some r' ∧ SamePacket env r.1 r'.1 := by
  obtain ⟨data', hsame, rfl⟩ := hsame
  cases hr : m.updateL2size with
  | none => exact Or.inl ⟨rfl, by rw [Mbuf.updateL2size_same m data' hsame h.tags, hr, Option.map_none]⟩
  | some r =>
    obtain ⟨hparse, hsame'⟩ := m.updateL2size_withData r hr h.tags data' hsame
    refine Or.inr ⟨r, _, rfl, hparse, ?_⟩
    obtain ⟨hl2, hhdr⟩ := m.updateL2size_header r hr h.tags
    cases hrunt : r.1.runt with
    | true =>
      refine .runt hrunt hrunt (h.udp r hr) ?_
      intro hudp
      exact h.udp r hr (headerlessUdp_same hsame' hl2 hudp)
    | false =>
      have hlen := of_decide_eq_false hrunt
      exact .whole hrunt hl2 (by omega) (h.echo r hr) ⟨data', hsame', rfl⟩

/-- The same packets are handed to the same channels, freed, and answered, the replies have the
same data, and the ARP table ends equal. -/
structure SameDecisions (o o' : RxOutcome) : Prop where
  handed_eq : handed o.actions = handed o'.actions
  freed_perm : (freed o.actions).Perm (freed o'.actions)
  ringed_eq : o.packets.ringed = o'.packets.ringed
  replies : ∀ b ∈ o.packets.ringed, SameData (o.packets.heap b) (o'.packets.heap b)
  arp_eq : o.packets.arp = o'.packets.arp

theorem settle_packets (c : RxCall) (heap : MbufHeap) (arp : ArpTable) (burstSize n : ℕ)
    (v : SinkView) (vs : List (MbufPtr × Verdict)) :
    (settle c heap arp burstSize n v vs).packets =
      processRxPackets c.env (udpHeap heap ((delivered vs).map Prod.snd)) arp (deferred vs) := by
  by_cases hnil : deferred vs = []
  · rw [settle, if_pos hnil, hnil]
    rfl
  · rw [settle, if_neg hnil]

theorem settle_kept (c : RxCall) (heap : MbufHeap) (arp : ArpTable) (burstSize n : ℕ)
    (v : SinkView) (vs : List (MbufPtr × Verdict)) :
    kept c.enqueue (settle c heap arp burstSize n v vs).actions =
      kept c.enqueue (actions c none vs) := by
  by_cases hnil : deferred vs = []
  · rw [settle, if_pos hnil]
  · rw [settle, if_neg hnil]
    dsimp only
    split_ifs
    · rw [kept_append]
      exact List.append_nil _
    · rfl

/-- An mbuf that is deferred is not handed to a channel as well. -/
theorem deferred_not_delivered (vs : List (MbufPtr × Verdict)) (hnodup : (vs.map Prod.fst).Nodup)
    (b : MbufPtr) (hb : b ∈ deferred vs) : b ∉ (delivered vs).map Prod.snd := by
  intro hdel
  obtain ⟨⟨b', k⟩, hk, rfl⟩ := List.mem_map.mp hb
  obtain ⟨hmem, hother⟩ := List.mem_filter.mp hk
  obtain ⟨⟨ch, b''⟩, hch, rfl⟩ := List.mem_map.mp hdel
  have heq := List.inj_on_of_nodup_map hnodup hmem (delivered_mem vs ch b'' hch) rfl
  have hk : k = .deliver ch := (Prod.mk.inj heq).2
  exact absurd (of_decide_eq_true hother) (by simp [hk])

theorem mem_of_deferred (vs : List (MbufPtr × Verdict)) (b : MbufPtr) (hb : b ∈ deferred vs) :
    b ∈ vs.map Prod.fst := by
  obtain ⟨x, hx, rfl⟩ := List.mem_map.mp hb
  exact List.mem_map.mpr ⟨x, (List.mem_filter.mp hx).1, rfl⟩

theorem runt_udpHeap (heap : MbufHeap) (bs : List MbufPtr) (b : MbufPtr) :
    (udpHeap heap bs b).runt = (heap b).runt := by
  unfold udpHeap
  split_ifs
  · rfl
  · rfl

section Settle
variable (c : RxCall) (heap heap' : MbufHeap) (arp : ArpTable) (burst : List MbufPtr)
  (vs vs' : List (MbufPtr × Verdict))

/-- What becomes of the deferred packets in both runs: runts drop out, and the others are the
same list. -/
theorem packets_same (hck : ReadsHeaderOnly c.env.rteIpv4Cksum)
    (hmac : c.env.config.macAddr.length = 6) (hnodup : burst.Nodup) (hvs : vs.map Prod.fst = burst)
    (hvs' : vs'.map Prod.fst = burst)
    (hpackets : ∀ b ∈ burst, SamePacket c.env (heap b) (heap' b))
    (hall : List.Forall₂ (SameVerdict fun b => (heap b).runt) vs vs') (r r' : RxPackets)
    (hr : r = splitRxPackets c.env (udpHeap heap ((delivered vs).map Prod.snd)) arp (deferred vs))
    (hr' : r' = splitRxPackets c.env (udpHeap heap' ((delivered vs').map Prod.snd)) arp
      (deferred vs')) :
    r.ringed = r'.ringed ∧ r.arp = r'.arp ∧ ∀ b ∈ r.ringed, SameData (r.heap b) (r'.heap b) := by
  have hdel := delivered_same _ vs vs' hall
  have hrest := deferred_same _ vs vs' hall
  obtain ⟨hring, harp, hheap⟩ := splitRxPackets_runts c.env (fun b => (heap b).runt) (deferred vs)
    (udpHeap heap ((delivered vs).map Prod.snd)) arp (by
      intro b _ hb
      rw [runt_udpHeap]
      exact hb)
  obtain ⟨hring', harp', hheap'⟩ := splitRxPackets_runts c.env (fun b => (heap b).runt)
    (deferred vs') (udpHeap heap' ((delivered vs').map Prod.snd)) arp (by
      intro b hmem hb
      rw [runt_udpHeap]
      cases hpackets b (hvs' ▸ mem_of_deferred vs' b hmem) with
      | runt _ h' => exact h'
      | whole h => exact absurd (h.symm.trans hb) Bool.false_ne_true)
  rw [← hrest, ← hdel] at hring' harp' hheap'
  have hsub : ((deferred vs).filter fun b => !(heap b).runt).Sublist burst := by
    rw [← hvs]
    exact List.filter_sublist.trans (List.Sublist.map _ List.filter_sublist)
  obtain ⟨hsring, hsarp, hsheap⟩ := splitRxPackets_same c.env hck hmac
    ((deferred vs).filter fun b => !(heap b).runt) (udpHeap heap ((delivered vs).map Prod.snd))
    (udpHeap heap' ((delivered vs).map Prod.snd)) arp (hnodup.sublist hsub) (by
      intro b hb
      obtain ⟨hdef, hrunt⟩ := List.mem_filter.mp hb
      have hnot := deferred_not_delivered vs (hvs ▸ hnodup) b hdef
      rw [runt_udpHeap, udpHeap, udpHeap, if_neg hnot, if_neg hnot]
      exact ⟨by simpa using hrunt, hpackets b (hsub.subset hb)⟩)
  rw [← hdel] at hr'
  rw [hr, hr', hring, hring', harp, harp', hheap, hheap']
  refine ⟨hsring, hsarp, ?_⟩
  intro b hb
  exact hsheap b ((splitRxPackets_perm c.env _ arp _).subset (List.mem_append_right _ hb))

theorem settle_same (hck : ReadsHeaderOnly c.env.rteIpv4Cksum)
    (hmac : c.env.config.macAddr.length = 6) (hnodup : burst.Nodup) (hvs : vs.map Prod.fst = burst)
    (hvs' : vs'.map Prod.fst = burst)
    (hpackets : ∀ b ∈ burst, SamePacket c.env (heap b) (heap' b))
    (hall : List.Forall₂ (SameVerdict fun b => (heap b).runt) vs vs') (burstSize n : ℕ)
    (v : SinkView) (o o' : RxOutcome) (ho : o = settle c heap arp burstSize n v vs)
    (ho' : o' = settle c heap' arp burstSize n v vs') : SameDecisions o o' := by
  have hspec := processRxPackets_spec c.env (udpHeap heap ((delivered vs).map Prod.snd)) arp
    (deferred vs)
  have hspec' := processRxPackets_spec c.env (udpHeap heap' ((delivered vs').map Prod.snd)) arp
    (deferred vs')
  have hledger := ledger_settle c heap arp burstSize n v vs o ho
  have hledger' := ledger_settle c heap' arp burstSize n v vs' o' ho'
  dsimp only at hspec hspec'
  rw [← settle_packets c heap arp burstSize n v vs, ← ho] at hspec
  rw [← settle_packets c heap' arp burstSize n v vs', ← ho'] at hspec'
  obtain ⟨_, hring, _, hheap, harp, _⟩ := hspec
  obtain ⟨_, hring', _, hheap', harp', _⟩ := hspec'
  obtain ⟨hsring, hsarp, hsheap⟩ := packets_same c heap heap' arp burst vs vs' hck hmac hnodup hvs
    hvs' hpackets hall _ _ rfl rfl
  rw [← hring, ← hring'] at hsring
  refine ⟨?_, ?_, hsring, ?_, ?_⟩
  · rw [ho, ho', (handed_settle c heap arp burstSize n v vs).1,
      (handed_settle c heap' arp burstSize n v vs').1, delivered_same _ vs vs' hall]
  · -- freed is what is neither kept, answered nor leaked
    obtain ⟨hkept, hleak⟩ := slices_same c _ vs vs' hall none
    have hkept' : kept c.enqueue o.actions = kept c.enqueue o'.actions := by
      rw [ho, ho', settle_kept, settle_kept, hkept]
    rw [hkept', hsring, hleak, hvs] at hledger
    rw [hvs'] at hledger'
    rw [List.perm_iff_count]
    intro x
    have hcount := (hledger.trans hledger'.symm).count_eq x
    simp only [List.count_append] at hcount
    omega
  · intro b hb
    rw [hheap, hheap']
    exact hsheap b (hring ▸ hb)
  · rw [harp, harp', hsarp]

end Settle

/-- Both calls are undefined, or both have an outcome and decide alike. -/
def SameRuns (r r' : Option RxOutcome) : Prop :=
  r = none ∧ r' = none ∨ ∃ o o', r = some o ∧ r' = some o' ∧ SameDecisions o o'

theorem SameRuns.decisions {r r' : Option RxOutcome} {o o' : RxOutcome} (h : SameRuns r r')
    (ho : r = some o) (ho' : r' = some o') : SameDecisions o o' := by
  obtain ⟨hn, _⟩ | ⟨o₁, o₂, h₁, h₂, hdec⟩ := h
  · exact absurd (ho.symm.trans hn) (by simp)
  · obtain rfl := Option.some.inj (ho.symm.trans h₁)
    obtain rfl := Option.some.inj (ho'.symm.trans h₂)
    exact hdec

/-- Without runts the verdicts are the same list. -/
theorem verdicts_eq (runt : MbufPtr → Bool) (vs vs' : List (MbufPtr × Verdict))
    (hall : List.Forall₂ (SameVerdict runt) vs vs') (h : ∀ b ∈ vs.map Prod.fst, runt b = false) :
    vs = vs' := by
  induction hall with
  | nil => rfl
  | @cons x y vs vs' hxy _ ih =>
    obtain rfl | ⟨_, hr, _, _⟩ := hxy
    · rw [ih fun b hb => h b (List.mem_cons_of_mem _ hb)]
    · exact absurd hr (by simp [h x.1 (List.mem_cons_self ..)])

/-- The mbufs of a burst after `update_l2size`, in both runs. -/
theorem measured_same (env : RxEnv) (heap heap' : MbufHeap) (burst : List MbufPtr)
    (hsame : ∀ b ∈ burst, SameData (heap b) (heap' b))
    (hfree : ∀ b ∈ burst, StaleFree env (heap b)) :
    updateL2sizes heap burst = none ∧ updateL2sizes heap' burst = none ∨
      ∃ h h', updateL2sizes heap burst = some h ∧ updateL2sizes heap' burst = some h' ∧
        ∀ b ∈ burst, SamePacket env (h b) (h' b) ∧ (heap b).updateL2size.map Prod.fst = some (h b) := by
  obtain ⟨hsome, hnone⟩ := Mbuf.sweep_spec _ updateL2size_idem burst heap
  obtain ⟨hsome', hnone'⟩ := Mbuf.sweep_spec _ updateL2size_idem burst heap'
  by_cases hends : TagsEnd heap burst
  · have hends' : TagsEnd heap' burst := by
      intro b hb
      obtain ⟨hn, _⟩ | ⟨_, r', _, hr', _⟩ := (hfree b hb).measured (hsame b hb)
      · exact absurd hn (hends b hb)
      · rw [hr']
        exact Option.some_ne_none _
    refine Or.inr ⟨_, _, hsome fun b hb => by simpa using hends b hb,
      hsome' fun b hb => by simpa using hends' b hb, ?_⟩
    intro b hb
    obtain ⟨hn, _⟩ | ⟨r, r', hr, hr', hpacket⟩ := (hfree b hb).measured (hsame b hb)
    · exact absurd hn (hends b hb)
    · simp only [hb, if_true, hr, hr', Option.map_some, Option.getD_some]
      exact ⟨hpacket, trivial⟩
  · have hstuck : ∃ b ∈ burst, (heap b).updateL2size = none := by
      by_contra hall
      exact hends fun b hb hn => hall ⟨b, hb, hn⟩
    obtain ⟨b, hb, hn⟩ := hstuck
    refine Or.inl ⟨hnone ⟨b, hb, by rw [hn]; rfl⟩, hnone' ⟨b, hb, ?_⟩⟩
    obtain ⟨_, hn'⟩ | ⟨r, _, hr, _, _⟩ := (hfree b hb).measured (hsame b hb)
    · rw [hn']
      rfl
    · exact absurd (hn.symm.trans hr) (by simp)

/-- Two calls on bursts with the same data decide alike. A burst of more packets than half of the
array may overrun it, depending on how many runts are copied behind it; hence it has no runts. -/
theorem process_same (j : RxJob) (c : RxCall) (hc : ∀ ch bs, c.enqueue ch bs ≤ bs.length)
    (hck : ReadsHeaderOnly c.env.rteIpv4Cksum) (hmac : c.env.config.macAddr.length = 6)
    (heap heap' : MbufHeap) (arp : ArpTable) (burst : List MbufPtr) (hnodup : burst.Nodup)
    (hsame : ∀ b ∈ burst, SameData (heap b) (heap' b))
    (hfree : ∀ b ∈ burst, StaleFree c.env (heap b))
    (hroom : burst.length ≤ maxPktBurst ∨
      ∀ b ∈ burst, ∀ r, (heap b).updateL2size = some r → r.1.runt = false) :
    SameRuns (j.process c heap arp burst) (j.process c heap' arp burst) := by
  by_cases hne : burst = []
  · rw [RxJob.process, RxJob.process, if_pos hne, if_pos hne]
    exact Or.inr ⟨_, _, rfl, rfl, rfl, .refl _, rfl, fun b hb => absurd hb List.not_mem_nil, rfl⟩
  by_cases hle : burst.length ≤ j.burstSize
  swap
  · rw [RxJob.process, RxJob.process, if_neg hne, if_neg hne, dif_neg hle, dif_neg hle]
    exact Or.inl ⟨rfl, rfl⟩
  obtain ⟨hn, hn'⟩ | ⟨h, h', hl2, hl2', hpackets⟩ :=
    measured_same c.env heap heap' burst hsame hfree
  · rw [RxJob.process, RxJob.process, if_neg hne, if_neg hne, dif_pos hle, dif_pos hle, hn, hn']
    exact Or.inl ⟨rfl, rfl⟩
  rw [process_spec j c heap h arp burst hne hle hl2 hc,
    process_spec j c heap' h' arp burst hne hle hl2' hc]
  obtain ⟨hn, hn'⟩ | ⟨v, vs, vs', hv, hv', hall⟩ :=
    verdicts_same c (fun b => (h b).runt) h h' burst (j.view.tryReloadSinks c.published).1
      (fun b hb => (hpackets b hb).1.lookups)
  · rw [hn, hn']
    exact Or.inl ⟨rfl, rfl⟩
  have hvs := verdicts_fst c h burst _ v vs hv
  have hvs' := verdicts_fst c h' burst _ v vs' hv'
  have hfits : burst.length + (deferred vs).length ≤ 2 * maxPktBurst ↔
      burst.length + (deferred vs').length ≤ 2 * maxPktBurst := by
    obtain hhalf | hwhole := hroom
    · have hlen : ∀ ws : List (MbufPtr × Verdict), ws.map Prod.fst = burst →
          (deferred ws).length ≤ burst.length := by
        intro ws hws
        rw [← hws, deferred, List.length_map, List.length_map]
        exact List.length_filter_le ..
      have h1 := hlen vs hvs
      have h2 := hlen vs' hvs'
      exact iff_of_true (by omega) (by omega)
    · rw [verdicts_eq _ vs vs' hall]
      intro b hb
      rw [hvs] at hb
      obtain ⟨r, hr, heq⟩ := Option.map_eq_some_iff.mp (hpackets b hb).2
      rw [← heq]
      exact hwhole b hb r hr
  rw [hv, hv', Option.bind_some, Option.bind_some]
  by_cases hroom' : burst.length + (deferred vs).length ≤ 2 * maxPktBurst
  · rw [if_pos hroom', if_pos (hfits.mp hroom')]
    exact Or.inr ⟨_, _, rfl, rfl, settle_same c h h' arp burst vs vs' hck hmac hnodup hvs hvs'
      (fun b hb => (hpackets b hb).1) hall _ _ v _ _ rfl rfl⟩
  · rw [if_neg hroom', if_neg (hfits.not.mp hroom')]
    exact Or.inl ⟨rfl, rfl⟩

/-! ## A datagram and a runt, with other bytes behind them -/

def runtPacket : Mbuf := { data := fun _ => 8, dataLen := 5 }

def cleanHeap : MbufHeap := fun b => if b = 0 then Mbuf.udpPacket 0x10 0x92 else runtPacket

def overwritten (m : Mbuf) : Mbuf := m.withData fun i => if i < m.dataLen then m.data i else 0xFF

theorem overwritten_same (m : Mbuf) : SameData m (overwritten m) := by
  refine ⟨_, ?_, rfl⟩
  intro i hi
  exact (if_pos hi).symm

theorem udpPacket_staleFree (env : RxEnv) : StaleFree env (Mbuf.udpPacket 0x10 0x92) := by
  have hr := udpPacket_frame.updateL2size_eq
  refine ⟨?_, ?_, ?_⟩
  · intro h
    exact absurd h.1 (by decide)
  · intro r h hudp
    obtain rfl := Option.some.inj (hr.symm.trans h)
    exact absurd hudp.runt (by decide)
  · intro r h hecho
    obtain rfl := Option.some.inj (hr.symm.trans h)
    exact absurd hecho.icmp (by decide)

theorem runtPacket_staleFree (env : RxEnv) : StaleFree env runtPacket := by
  have hr : runtPacket.updateL2size = some ((Mbuf.tagStart runtPacket).1, 0) := if_pos (by decide)
  refine ⟨?_, ?_, ?_⟩
  · intro h
    exact absurd h.1 (by decide)
  · intro r h hudp
    obtain rfl := Option.some.inj (hr.symm.trans h)
    exact absurd hudp.udp_fits (by decide)
  · intro r h hecho
    obtain rfl := Option.some.inj (hr.symm.trans h)
    have hreq := hecho.echo
    simp only [isEchoRequest, Bool.and_eq_true, decide_eq_true_eq] at hreq
    exact absurd hreq.2 (by decide)

theorem process_same_runt :
    SameRuns (cachedJob.process (portCall (rteBe16 0x1092)) cleanHeap (fun _ => none) [0, 1])
      (cachedJob.process (portCall (rteBe16 0x1092)) (fun b => overwritten (cleanHeap b))
        (fun _ => none) [0, 1]) :=
  process_same cachedJob (portCall (rteBe16 0x1092)) (by simp [portCall]) (fun _ _ _ _ _ => rfl) rfl
    cleanHeap (fun b => overwritten (cleanHeap b)) (fun _ => none) [0, 1] (by decide)
    (fun b _ => overwritten_same (cleanHeap b))
    (by
      intro b hb
      obtain rfl | hb := List.mem_cons.mp hb
      · exact udpPacket_staleFree _
      · obtain rfl := List.mem_singleton.mp hb
        exact runtPacket_staleFree _)
    (Or.inl (by decide))

/-! ## A packet without header -/

/-- 22 bytes: an Ethernet header and a UDP header, with the length 0 where the IPv4 header should
begin. `protocol` is the byte behind the data at which the protocol is looked for. -/
def headerless (protocol : UInt8) : Mbuf where
  data := fun i =>
    if i = 23 then protocol
    else (List.replicate 12 (0 : UInt8) ++ [8, 0, 0x40, 0, 0x10, 0x92, 0, 8]).getD i 0
  dataLen := 22

theorem headerless_same (protocol protocol' : UInt8) :
    SameData (headerless protocol) (headerless protocol') := by
  refine ⟨(headerless protocol').data, ?_, rfl⟩
  intro i hi
  have hne : i ≠ 23 := by
    have hlt : i < 22 := hi
    omega
  simp only [headerless, if_neg hne]

theorem stale_protocol_decides :
    SameData (headerless 17) (headerless 0) ∧
      ∃ o o', cachedJob.process (portCall (rteBe16 0x1092)) (fun _ => headerless 17) (fun _ => none)
          [0] = some o ∧
        cachedJob.process (portCall (rteBe16 0x1092)) (fun _ => headerless 0) (fun _ => none) [0] =
          some o' ∧
        handed o.actions = [(7, 0)] ∧ handed o'.actions = [] ∧ ¬ SameDecisions o o' := by
  refine ⟨headerless_same 17 0, _, _, rfl, rfl, by decide, by decide, ?_⟩
  intro h
  exact absurd h.handed_eq (by decide)

end DpdkTools
