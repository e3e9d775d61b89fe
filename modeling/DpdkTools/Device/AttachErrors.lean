import DpdkTools.Device.Attach

/-! What an `attach_rx` that fails leaves behind.

No path of `attach_rx` takes an effect back. What a failed call has changed is therefore decided
by the step that failed: nothing before the first effect, and the attachment with the reference
to its group when only the multicast join at the end fails. -/
namespace DpdkTools
set_option autoImplicit false

def Mcasts.oneMore (count : Option UInt8) : UInt8 :=
  match count with
  | none => 1
  | some count => count + 1

theorem Mcasts.mcastGroup_joined (m : Mcasts) (g : Be32) (type : IgmpType) (svc : SvcTx) :
    (m.mcastGroup g type svc).1.joinedMcasts = m.joinedMcasts := by
  unfold Mcasts.mcastGroup
  split_ifs <;> rfl

theorem Mcasts.joinMcast_joined (m : Mcasts) (g : Be32) (svc : SvcTx) :
    (m.joinMcast g svc).1.joinedMcasts =
      Function.update m.joinedMcasts g (some (Mcasts.oneMore (m.joinedMcasts g))) := by
  unfold Mcasts.joinMcast
  cases m.joinedMcasts g with
  | none => exact Mcasts.mcastGroup_joined ..
  | some count => rfl

namespace FlowQueue

/-- An old flow withstands both attempts of `reset(ch, ep)` to destroy it. -/
def Undestroyed (q : FlowQueue) (env : FlowEnv) : Prop :=
  (destroyRest env q.flows.length (q.resetFlows env).flows.reverse).2 ≠ none

instance (q : FlowQueue) (env : FlowEnv) : Decidable (q.Undestroyed env) :=
  inferInstanceAs (Decidable (_ ≠ _))

theorem reset_undestroyed (q : FlowQueue) (env : FlowEnv) (ch : Option ChannelPtr) (ep : Ip4Endpoint)
    (h : q.Undestroyed env) :
    ∃ q' e, q.reset env ch ep = (q', some e) ∧ q'.channel = q.channel := by
  unfold Undestroyed at h
  unfold reset
  cases hd : destroyRest env q.flows.length (q.resetFlows env).flows.reverse with
  | mk rest e =>
    cases e with
    | none => simp [hd] at h
    | some e => exact ⟨{ q.resetFlows env with flows := rest.reverse }, e, by simp only [hd], rfl⟩

theorem reset_destroyed (q : FlowQueue) (env : FlowEnv) (ch : Option ChannelPtr) (ep : Ip4Endpoint)
    (h : ¬ q.Undestroyed env) :
    ∃ q', q.reset env ch ep = (q', if env.create then none else some .flow) ∧ q'.channel = ch := by
  unfold Undestroyed at h
  unfold reset
  cases hd : destroyRest env q.flows.length (q.resetFlows env).flows.reverse with
  | mk rest e =>
    cases e with
    | some e => simp [hd] at h
    | none =>
      simp only [hd, routeTo]
      by_cases hc : env.create = true
      · exact ⟨_, by rw [if_pos hc, if_pos hc], rfl⟩
      · exact ⟨_, by rw [if_neg hc, if_neg hc], rfl⟩

end FlowQueue

namespace Device

def counts (d : Device) : Be32 → Option UInt8 := d.mcasts.joinedMcasts

structure SameAs (d d' : Device) : Prop where
  table : d'.table = d.table
  channels : d'.channels = d.channels
  counts : d'.counts = d.counts

/-- The step that fails comes before the first effect. -/
def FailsEarly (d : Device) (env : AttachEnv) (ch : ChannelPtr) (mode : AttachMode) : Prop :=
  match d.attachPath (some ch) mode with
  | .unavailable => True
  | .assigned _ => env.flow.create = false
  | .free i => ∃ q, d.fqueues[i]? = some q ∧ q.Undestroyed env.flow
  | .rss => False

def FailsOnCreate (d : Device) (env : AttachEnv) (ch : ChannelPtr) (mode : AttachMode) (i : ℕ) : Prop :=
  d.attachPath (some ch) mode = .free i ∧ (∀ q, d.fqueues[i]? = some q → ¬ q.Undestroyed env.flow) ∧
    env.flow.create = false

/-- The attachment of `ch` and one more reference to the group of `ep`. -/
structure Attached (d d' : Device) (ep : Ip4Endpoint) (ch : ChannelPtr) (mode : AttachMode) : Prop where
  counts : d'.counts = Function.update d.counts ep.1 (some (Mcasts.oneMore (d.counts ep.1)))
  attachment :
    match d.attachPath (some ch) mode with
    | .rss => d'.table = d.table ++ [(ep, some ch)] ∧ d'.channels = d.channels
    | .assigned i => d'.table = d.table ∧ d'.channels = d.channels ∧ d.channels[i]? = some (some ch)
    | .free i => d'.table = d.table ∧ d'.channels = d.channels.set i (some ch)
    | .unavailable => False

theorem attachPath_cases (d : Device) (ch : Option ChannelPtr) (mode : AttachMode) :
    d.attachPath ch mode = .rss ∨ d.attachPath ch mode = .unavailable ∨
      (∃ i, d.attachPath ch mode = .assigned i ∧
        d.fqueues.findIdx? (fun q => q.channel = ch) = some i) ∨
      ∃ i, d.attachPath ch mode = .free i ∧ d.fqueues.findIdx? (fun q => !q.assigned) = some i := by
  unfold attachPath
  by_cases hm : mode = .rss
  · exact Or.inl (if_pos hm)
  rw [if_neg hm]
  cases hfind : d.fqueues.findIdx? (fun q => q.channel = ch) with
  | some i => exact Or.inr (Or.inr (Or.inl ⟨i, rfl, rfl⟩))
  | none =>
    cases hfree : d.fqueues.findIdx? (fun q => !q.assigned) with
    | some i => exact Or.inr (Or.inr (Or.inr ⟨i, rfl, rfl⟩))
    | none =>
      by_cases hflow : mode = .flow
      · exact Or.inr (Or.inl (if_pos hflow))
      · exact Or.inl (if_neg hflow)

theorem attachPath_assigned (d : Device) (ch : ChannelPtr) (mode : AttachMode) (i : ℕ)
    (h : d.attachPath (some ch) mode = .assigned i) :
    ∃ q, d.fqueues[i]? = some q ∧ q.channel = some ch := by
  rcases d.attachPath_cases (some ch) mode with hp | hp | ⟨k, hp, hfind⟩ | ⟨k, hp, _⟩
  · cases h.symm.trans hp
  · cases h.symm.trans hp
  · obtain rfl : i = k := AttachPath.assigned.inj (h.symm.trans hp)
    obtain ⟨hk, hch, _⟩ := List.findIdx?_eq_some_iff_getElem.mp hfind
    exact ⟨_, List.getElem?_eq_getElem hk, by simpa using hch⟩
  · cases h.symm.trans hp

theorem attachPath_free (d : Device) (ch : ChannelPtr) (mode : AttachMode) (i : ℕ)
    (h : d.attachPath (some ch) mode = .free i) : ∃ q, d.fqueues[i]? = some q ∧ q.channel = none := by
  rcases d.attachPath_cases (some ch) mode with hp | hp | ⟨k, hp, _⟩ | ⟨k, hp, hfree⟩
  · cases h.symm.trans hp
  · cases h.symm.trans hp
  · cases h.symm.trans hp
  · obtain rfl : i = k := AttachPath.free.inj (h.symm.trans hp)
    obtain ⟨hk, hch, _⟩ := List.findIdx?_eq_some_iff_getElem.mp hfree
    exact ⟨_, List.getElem?_eq_getElem hk, by simpa [FlowQueue.assigned] using hch⟩

theorem joinEndpoint_failed (d : Device) (ep : Ip4Endpoint) (svc : SvcTx)
    (h : (d.joinEndpoint ep svc).2 ≠ .success) :
    rteIsIpv4Mcast (rteBeToCpu32 ep.1) = true ∧
      (d.joinEndpoint ep svc).1.counts =
        Function.update d.counts ep.1 (some (Mcasts.oneMore (d.counts ep.1))) := by
  unfold joinEndpoint at h ⊢
  split_ifs at h ⊢ with hm
  · exact ⟨hm, Mcasts.joinMcast_joined ..⟩
  · exact absurd rfl h

theorem channels_set_same (d : Device) (i : ℕ) (q q' : FlowQueue) (hq : d.fqueues[i]? = some q)
    (hch : q'.channel = q.channel) : (d.fqueues.set i q').map FlowQueue.channel = d.channels := by
  apply List.ext_getElem?
  intro k
  by_cases hk : i = k
  · subst hk
    obtain ⟨hlt, rfl⟩ := List.getElem?_eq_some_iff.mp hq
    simp [channels, hch, hlt]
  · simp [channels, List.getElem?_set_ne hk]

theorem channels_set (d : Device) (i : ℕ) (q : FlowQueue) :
    (d.fqueues.set i q).map FlowQueue.channel = d.channels.set i q.channel := by
  rw [List.map_set]
  rfl

/-! ## The paths, one by one -/

theorem attachAssigned_effects (d : Device) (env : AttachEnv) (ep : Ip4Endpoint) (i : ℕ)
    (q : FlowQueue) (hq : d.fqueues[i]? = some q) :
    (env.flow.create = false → (d.attachAssigned env ep i).1 = d) ∧
      (env.flow.create = true → ∃ d₁ : Device, d.attachAssigned env ep i = d₁.joinEndpoint ep env.svc ∧
        d₁.table = d.table ∧ d₁.channels = d.channels ∧ d₁.counts = d.counts) := by
  unfold attachAssigned
  rw [hq]
  constructor
  · intro hc
    simp [FlowQueue.routeTo, hc]
  · intro hc
    simp only [FlowQueue.routeTo, hc, if_true]
    exact ⟨_, rfl, rfl, channels_set_same d i q _ hq rfl, rfl⟩

theorem attachFree_effects (d : Device) (env : AttachEnv) (ep : Ip4Endpoint) (ch : ChannelPtr) (i : ℕ)
    (q : FlowQueue) (hq : d.fqueues[i]? = some q) :
    (q.Undestroyed env.flow → SameAs d (d.attachFree env ep (some ch) i).1) ∧
      (¬ q.Undestroyed env.flow → ∃ d₁ : Device, d₁.table = d.table ∧
        d₁.channels = d.channels.set i (some ch) ∧ d₁.counts = d.counts ∧
        d.attachFree env ep (some ch) i =
          if env.flow.create then d₁.joinEndpoint ep env.svc else (d₁, .threw)) := by
  unfold attachFree
  rw [hq]
  constructor
  · intro hu
    obtain ⟨q', e, hreset, hch⟩ := q.reset_undestroyed env.flow (some ch) ep hu
    simp only [hreset]
    exact ⟨rfl, channels_set_same d i q q' hq hch, rfl⟩
  · intro hu
    obtain ⟨q', hreset, hch⟩ := q.reset_destroyed env.flow (some ch) ep hu
    refine ⟨{ d with fqueues := d.fqueues.set i q' }, rfl, ?_, rfl, ?_⟩
    · have hset := channels_set d i q'
      rw [channels, hset, hch]
    · simp only [hreset]
      by_cases hc : env.flow.create = true
      · simp [hc]
      · simp [hc]

theorem attachRss_effects (d : Device) (ep : Ip4Endpoint) (ch : ChannelPtr) (svc : SvcTx) :
    ∃ d₁ : Device, d.attachRss ep (some ch) svc = d₁.joinEndpoint ep svc ∧
      d₁.table = d.table ++ [(ep, some ch)] ∧ d₁.channels = d.channels ∧ d₁.counts = d.counts := by
  refine ⟨{ d with store := d.store.publish (d.table ++ [(ep, some ch)]) }, ?_,
    SinkStore.table_publish .., rfl, rfl⟩
  simp [attachRss]

/-! ## Any failed call -/

theorem failsEarly_same (d : Device) (env : AttachEnv) (ep : Ip4Endpoint) (ch : ChannelPtr)
    (mode : AttachMode) (h : d.FailsEarly env ch mode) :
    SameAs d (d.attachRx env ep (some ch) mode).1 := by
  unfold FailsEarly at h
  unfold attachRx
  cases hpath : d.attachPath (some ch) mode with
  | unavailable => exact ⟨rfl, rfl, rfl⟩
  | rss => simp [hpath] at h
  | assigned i =>
    obtain ⟨q, hq, _⟩ := d.attachPath_assigned ch mode i hpath
    have hc : env.flow.create = false := by simpa [hpath] using h
    have hsame := (d.attachAssigned_effects env ep i q hq).1 hc
    simp only [hsame]
    exact ⟨rfl, rfl, rfl⟩
  | free i =>
    obtain ⟨q, hq, hu⟩ : ∃ q, d.fqueues[i]? = some q ∧ q.Undestroyed env.flow := by
      simpa [hpath] using h
    exact (d.attachFree_effects env ep ch i q hq).1 hu

theorem failsOnCreate_others (d : Device) (env : AttachEnv) (ep : Ip4Endpoint) (ch : ChannelPtr)
    (mode : AttachMode) (i : ℕ) (h : d.FailsOnCreate env ch mode i) :
    (d.attachRx env ep (some ch) mode).1.table = d.table ∧
      (d.attachRx env ep (some ch) mode).1.counts = d.counts ∧
      ∀ k, k ≠ i → (d.attachRx env ep (some ch) mode).1.channels[k]? = d.channels[k]? := by
  obtain ⟨hpath, hdestroyed, hc⟩ := h
  obtain ⟨q, hq, _⟩ := d.attachPath_free ch mode i hpath
  obtain ⟨d₁, htable, hchannels, hcounts, hcall⟩ :=
    (d.attachFree_effects env ep ch i q hq).2 (hdestroyed q hq)
  have hstate : (d.attachRx env ep (some ch) mode).1 = d₁ := by
    rw [attachRx, hpath]
    simp only [hcall, hc, Bool.false_eq_true, if_false]
  rw [hstate]
  refine ⟨htable, hcounts, ?_⟩
  intro k hk
  rw [hchannels, List.getElem?_set_ne (Ne.symm hk)]

theorem failsLate_attached (d : Device) (env : AttachEnv) (ep : Ip4Endpoint) (ch : ChannelPtr)
    (mode : AttachMode) (hfail : (d.attachRx env ep (some ch) mode).2 ≠ .success)
    (hearly : ¬ d.FailsEarly env ch mode) (hcreate : ∀ i, ¬ d.FailsOnCreate env ch mode i) :
    rteIsIpv4Mcast (rteBeToCpu32 ep.1) = true ∧
      Attached d (d.attachRx env ep (some ch) mode).1 ep ch mode := by
  -- every path that is left ends in a join from a state `d₁` with the counts of `d`
  have hjoin : ∀ d₁ : Device, d.attachRx env ep (some ch) mode = d₁.joinEndpoint ep env.svc →
      d₁.counts = d.counts →
      rteIsIpv4Mcast (rteBeToCpu32 ep.1) = true ∧
        (d.attachRx env ep (some ch) mode).1.counts =
          Function.update d.counts ep.1 (some (Mcasts.oneMore (d.counts ep.1))) ∧
        (d.attachRx env ep (some ch) mode).1.table = d₁.table ∧
        (d.attachRx env ep (some ch) mode).1.channels = d₁.channels := by
    intro d₁ hcall hcounts
    rw [hcall] at hfail ⊢
    obtain ⟨hm, hc⟩ := d₁.joinEndpoint_failed ep env.svc hfail
    rw [hcounts] at hc
    refine ⟨hm, hc, ?_, ?_⟩
    · rw [table, joinEndpoint_store, table]
    · rw [channels, joinEndpoint_fqueues, channels]
  cases hpath : d.attachPath (some ch) mode with
  | unavailable => exact absurd (by simp [FailsEarly, hpath]) hearly
  | rss =>
    obtain ⟨d₁, hcall, htable, hchannels, hcounts⟩ := d.attachRss_effects ep ch env.svc
    obtain ⟨hm, hc, ht, hch⟩ := hjoin d₁ (by rw [attachRx, hpath]; exact hcall) hcounts
    exact ⟨hm, hc, by rw [hpath]; exact ⟨ht.trans htable, hch.trans hchannels⟩⟩
  | assigned i =>
    obtain ⟨q, hq, hqch⟩ := d.attachPath_assigned ch mode i hpath
    have hcr : env.flow.create = true := by simpa [FailsEarly, hpath] using hearly
    obtain ⟨d₁, hcall, htable, hchannels, hcounts⟩ := (d.attachAssigned_effects env ep i q hq).2 hcr
    obtain ⟨hm, hc, ht, hch⟩ := hjoin d₁ (by rw [attachRx, hpath]; exact hcall) hcounts
    have hget : d.channels[i]? = some (some ch) := by simp [channels, hq, hqch]
    exact ⟨hm, hc, by rw [hpath]; exact ⟨ht.trans htable, hch.trans hchannels, hget⟩⟩
  | free i =>
    obtain ⟨q, hq, _⟩ := d.attachPath_free ch mode i hpath
    have hu : ¬ q.Undestroyed env.flow := by
      intro hu
      exact hearly (by simpa [FailsEarly, hpath] using ⟨q, hq, hu⟩)
    have hcr : env.flow.create = true := by
      by_contra hcr
      refine hcreate i ⟨hpath, ?_, by simpa using hcr⟩
      intro q' hq'
      obtain rfl : q = q' := by simpa [hq] using hq'
      exact hu
    obtain ⟨d₁, htable, hchannels, hcounts, hcall⟩ := (d.attachFree_effects env ep ch i q hq).2 hu
    rw [if_pos hcr] at hcall
    obtain ⟨hm, hc, ht, hch⟩ := hjoin d₁ (by rw [attachRx, hpath]; exact hcall) hcounts
    exact ⟨hm, hc, by rw [hpath]; exact ⟨ht.trans htable, hch.trans hchannels⟩⟩

/-- An attach that returns an error or throws: before the first effect nothing has changed; when
the rule for a free queue cannot be created, table, counts and all other queues are unchanged;
in every other case the multicast join has failed, and the attachment and its reference stand. -/
theorem attachRx_failed (d : Device) (env : AttachEnv) (ep : Ip4Endpoint) (ch : ChannelPtr)
    (mode : AttachMode) (hfail : (d.attachRx env ep (some ch) mode).2 ≠ .success) :
    (d.FailsEarly env ch mode → SameAs d (d.attachRx env ep (some ch) mode).1) ∧
      (∀ i, d.FailsOnCreate env ch mode i →
        (d.attachRx env ep (some ch) mode).1.table = d.table ∧
          (d.attachRx env ep (some ch) mode).1.counts = d.counts ∧
          ∀ k, k ≠ i → (d.attachRx env ep (some ch) mode).1.channels[k]? = d.channels[k]?) ∧
      (¬ d.FailsEarly env ch mode → (∀ i, ¬ d.FailsOnCreate env ch mode i) →
        rteIsIpv4Mcast (rteBeToCpu32 ep.1) = true ∧
          Attached d (d.attachRx env ep (some ch) mode).1 ep ch mode) :=
  ⟨d.failsEarly_same env ep ch mode, d.failsOnCreate_others env ep ch mode,
    d.failsLate_attached env ep ch mode hfail⟩

def joinedDevice : Device := ((create []).attachRx readyEnv (0x050000e0, 1) (some 7) .rss).1

theorem attachRx_failed_joined :
    (joinedDevice.attachRx readyEnv (0x050000e0, 2) (some 8) .rss).2 =
        .returned (some .addressInUse) ∧
      Attached joinedDevice (joinedDevice.attachRx readyEnv (0x050000e0, 2) (some 8) .rss).1
        (0x050000e0, 2) 8 .rss := by
  refine ⟨by decide, ?_⟩
  refine ((attachRx_failed joinedDevice readyEnv (0x050000e0, 2) 8 .rss (by decide)).2.2 ?_ ?_).2
  · simp [FailsEarly, attachPath]
  · simp [FailsOnCreate, attachPath]

theorem failed_attach_stays :
    (joinedDevice.attachRx readyEnv (0x050000e0, 2) (some 8) .rss).2 =
        .returned (some .addressInUse) ∧
      (joinedDevice.attachRx readyEnv (0x050000e0, 2) (some 8) .rss).1.table ≠
        joinedDevice.table ∧
      (joinedDevice.attachRx readyEnv (0x050000e0, 2) (some 8) .rss).1.counts (0x050000e0) ≠
        joinedDevice.counts (0x050000e0) := by
  decide

end Device

end DpdkTools
