import DpdkTools.Device.SinkCas

/-! No update of the sink table is lost, and none is applied twice, while every compare-exchange
meets the table its call has worked on.

The calls are those an application may make: attaches of channels to distinct ports, none of them 0,
and to distinct multicast groups, and detaches of pairs whose attach has returned. Three things go
wrong otherwise: an attach whose compare-exchange fails has moved its channel away and reports
`address_in_use`; an attach that has copied the table before a detach erased from it publishes the
erased entry again; and a detach that finds its entry gone in a second round does not give its
multicast reference back. -/
namespace DpdkTools
open Runs
set_option autoImplicit false

namespace Call

def entry (c : Call) : Sink := (c.ep, c.arg)

def finished (c : Call) : Prop := ∃ r, c.pc = .done r

def landed (c : Call) : Prop := c.pc = .adjust ∨ c.finished

theorem op_cases (c : Call) : c.op = .attach ∨ c.op = .detach := by
  cases c.op with
  | attach => exact Or.inl rfl
  | detach => exact Or.inr rfl

theorem not_landed_of_pc {c : Call} (hadjust : c.pc ≠ .adjust) (hdone : ∀ r, c.pc ≠ .done r) :
    ¬ c.landed := by
  rintro (h | ⟨r, h⟩)
  · exact hadjust h
  · exact hdone r h

def Same (c c' : Call) : Prop := c'.op = c.op ∧ c'.ep = c.ep ∧ c'.arg = c.arg

theorem Same.entry_eq {c c' : Call} (h : Same c c') : c'.entry = c.entry := by
  unfold Call.entry
  rw [h.2.1, h.2.2]

theorem Same.isMcast_eq {c c' : Call} (h : Same c c') : c'.isMcast = c.isMcast := by
  unfold Call.isMcast
  rw [h.2.1]

theorem same_of_move (sh sh' : Shared) (c c' : Call) (svc : SvcTx) (hm : CallMove sh c svc sh' c') :
    Same c c' := by
  cases hm <;> exact ⟨rfl, rfl, rfl⟩

theorem not_finished_of_move (sh sh' : Shared) (c c' : Call) (svc : SvcTx)
    (hm : CallMove sh c svc sh' c') : ¬ c.finished := by
  rintro ⟨r, hr⟩
  cases hm <;> simp_all

def Steady (c : Call) (sh : Shared) (svc : SvcTx) : Prop :=
  match c.op, c.pc with
  | .attach, .cas active new =>
    sh.store.sinks = active ∧ sh.tables new = sh.tables active ++ [c.entry]
  | .detach, .cas active _ => c.isMcast = true → sh.store.sinks = active
  | _, .adjust => c.isMcast = true → Mcasts.Sendable c.ep.1 svc
  | _, _ => True

instance (c : Call) (sh : Shared) (svc : SvcTx) : Decidable (c.Steady sh svc) := by
  unfold Steady
  split <;> infer_instance

theorem Steady.attach {c : Call} {sh : Shared} {svc : SvcTx} (h : c.Steady sh svc)
    (active new : TablePtr) (hop : c.op = .attach) (hpc : c.pc = .cas active new) :
    sh.store.sinks = active ∧ sh.tables new = sh.tables active ++ [c.entry] := by
  unfold Steady at h
  simpa only [hop, hpc] using h

theorem Steady.detach {c : Call} {sh : Shared} {svc : SvcTx} (h : c.Steady sh svc)
    (active new : TablePtr) (hop : c.op = .detach) (hpc : c.pc = .cas active new)
    (hmcast : c.isMcast = true) : sh.store.sinks = active := by
  unfold Steady at h
  simp only [hop, hpc] at h
  exact h hmcast

theorem Steady.sendable {c : Call} {sh : Shared} {svc : SvcTx} (h : c.Steady sh svc)
    (hpc : c.pc = .adjust) (hmcast : c.isMcast = true) : Mcasts.Sendable c.ep.1 svc := by
  unfold Steady at h
  rcases c.op_cases with hop | hop
  · simp only [hop, hpc] at h
    exact h hmcast
  · simp only [hop, hpc] at h
    exact h hmcast

end Call

namespace CasState

/-! ## The calls an application makes -/

def Given (s : CasState) : CasEvent → Prop
  | .enter _ .attach ep ch =>
    ch ≠ none ∧ ep.2 ≠ 0 ∧ ∀ k c, s.calls k = some c → c.op = .attach →
      c.ep.2 ≠ ep.2 ∧ (c.isMcast = true → c.ep.1 ≠ ep.1)
  | .enter _ .detach ep ch =>
    (∃ k c, s.calls k = some c ∧ c.op = .attach ∧ c.ep = ep ∧ c.arg = ch ∧ c.pc = .done .success) ∧
      ∀ k d, s.calls k = some d → d.op = .detach → d.ep ≠ ep
  | _ => True

/-- The compare-exchange of an attach finds the table it has copied, unchanged since; that of a
multicast detach finds the table it has erased from; and a report can be sent. -/
def Steady (s : CasState) : CasEvent → Prop
  | .run i svc => ∀ c ∈ s.calls i, c.Steady s.shared svc
  | _ => True

instance (s : CasState) (e : CasEvent) : Decidable (s.Steady e) :=
  match e with
  | .run i svc => inferInstanceAs (Decidable (∀ c ∈ s.calls i, c.Steady s.shared svc))
  | .enter _ _ _ _ => inferInstanceAs (Decidable True)
  | .reload _ => inferInstanceAs (Decidable True)

def Distinct (s : CasState) (R : Call → Call → Prop) : Prop :=
  ∀ i k c d, s.calls i = some c → s.calls k = some d → R c d → i = k

def SamePort (c d : Call) : Prop := c.op = .attach ∧ d.op = .attach ∧ c.ep.2 = d.ep.2

def SameGroup (c d : Call) : Prop :=
  c.op = .attach ∧ d.op = .attach ∧ c.isMcast = true ∧ c.ep.1 = d.ep.1

def SameDetach (c d : Call) : Prop := c.op = .detach ∧ d.op = .detach ∧ c.ep = d.ep

structure Registered (s : CasState) : Prop where
  args : ∀ i c, s.calls i = some c → c.arg ≠ none ∧ c.ep.2 ≠ 0
  ports : s.Distinct SamePort
  groups : s.Distinct SameGroup
  attached : ∀ k d, s.calls k = some d → d.op = .detach →
    ∃ i c, s.calls i = some c ∧ c.op = .attach ∧ c.ep = d.ep ∧ c.arg = d.arg ∧ c.pc = .done .success
  detaches : s.Distinct SameDetach

theorem registered_initial : initial.Registered := by
  constructor <;> simp [initial, Distinct]

section Run
variable (s : CasState) (sh' : Shared) (i : ℕ) (c c' : Call) (hc : s.calls i = some c)
  (hsame : Call.Same c c')
include hc hsame

theorem calls_origin (k : ℕ) (d : Call) (h : Function.update s.calls i (some c') k = some d) :
    ∃ d₀, s.calls k = some d₀ ∧ Call.Same d₀ d := by
  rcases calls_update s i k c' d h with ⟨rfl, rfl⟩ | ⟨_, hk⟩
  · exact ⟨c, hc, hsame⟩
  · exact ⟨d, hk, rfl, rfl, rfl⟩

theorem distinct_run (R : Call → Call → Prop)
    (hR : ∀ d d' e e', Call.Same d d' → Call.Same e e' → R d' e' → R d e) (h : s.Distinct R) :
    Distinct ⟨sh', Function.update s.calls i (some c'), s.held⟩ R := by
  intro k l d e hd he hde
  obtain ⟨d₀, hd₀, hsd⟩ := calls_origin s i c c' hc hsame k d hd
  obtain ⟨e₀, he₀, hse⟩ := calls_origin s i c c' hc hsame l e he
  exact h k l d₀ e₀ hd₀ he₀ (hR d₀ d e₀ e hsd hse hde)

theorem registered_run (h : s.Registered) (hnot : ¬ c.finished) :
    Registered ⟨sh', Function.update s.calls i (some c'), s.held⟩ := by
  refine ⟨?_, distinct_run s sh' i c c' hc hsame _ ?_ h.ports,
    distinct_run s sh' i c c' hc hsame _ ?_ h.groups, ?_,
    distinct_run s sh' i c c' hc hsame _ ?_ h.detaches⟩
  · intro k d hd
    obtain ⟨d₀, hd₀, hs⟩ := calls_origin s i c c' hc hsame k d hd
    rw [hs.2.1, hs.2.2]
    exact h.args k d₀ hd₀
  · rintro d d' e e' ⟨h1, h2, _⟩ ⟨h4, h5, _⟩ ⟨h7, h8, h9⟩
    exact ⟨h1 ▸ h7, h4 ▸ h8, h2 ▸ h5 ▸ h9⟩
  · rintro d d' e e' hd ⟨h4, h5, _⟩ ⟨h7, h8, h9, h10⟩
    exact ⟨hd.1 ▸ h7, h4 ▸ h8, hd.isMcast_eq ▸ h9, hd.2.1 ▸ h5 ▸ h10⟩
  · intro k d hd hdop
    obtain ⟨d₀, hd₀, hsd⟩ := calls_origin s i c c' hc hsame k d hd
    rw [hsd.1] at hdop
    obtain ⟨l, e, he, heop, hep, harg, hdone⟩ := h.attached k d₀ hd₀ hdop
    have hli : l ≠ i := by
      rintro rfl
      obtain rfl := Option.some.inj (hc.symm.trans he)
      exact hnot ⟨_, hdone⟩
    refine ⟨l, e, update_other s i l c' e hli he, heop, ?_, ?_, hdone⟩
    · rw [hsd.2.1, hep]
    · rw [hsd.2.2, harg]
  · rintro d d' e e' ⟨h1, h2, _⟩ ⟨h4, h5, _⟩ ⟨h7, h8, h9⟩
    exact ⟨h1 ▸ h7, h4 ▸ h8, h2 ▸ h5 ▸ h9⟩

end Run

section Enter
variable (s : CasState) (i : ℕ) (op : CallOp) (ep : Ip4Endpoint) (ch : Option ChannelPtr)
  (hi : s.calls i = none)

theorem distinct_enter (R : Call → Call → Prop) (h : s.Distinct R)
    (hnew : ∀ k c, s.calls k = some c → ¬ R c (.enter op ep ch) ∧ ¬ R (.enter op ep ch) c) :
    Distinct { s with calls := Function.update s.calls i (some (.enter op ep ch)) } R := by
  intro k l d e hd he hde
  rcases calls_update s i k _ d hd with ⟨hki, rfl⟩ | ⟨_, hd⟩
  · rcases calls_update s i l _ e he with ⟨hli, rfl⟩ | ⟨_, he⟩
    · rw [hki, hli]
    · exact absurd hde (hnew l e he).2
  · rcases calls_update s i l _ e he with ⟨_, rfl⟩ | ⟨_, he⟩
    · exact absurd hde (hnew k d hd).1
    · exact h k l d e hd he hde

theorem args_enter (h : s.Registered) (hnew : ch ≠ none ∧ ep.2 ≠ 0) (k : ℕ) (d : Call)
    (hd : Function.update s.calls i (some (.enter op ep ch)) k = some d) :
    d.arg ≠ none ∧ d.ep.2 ≠ 0 := by
  rcases calls_update s i k _ d hd with ⟨_, rfl⟩ | ⟨_, hd⟩
  · exact hnew
  · exact h.args k d hd

include hi in
/-- The attach of a detach is an old call, also of the detach that enters now. -/
theorem attached_enter (h : s.Registered)
    (hnew : op = .detach → ∃ l e, s.calls l = some e ∧ e.op = .attach ∧ e.ep = ep ∧ e.arg = ch ∧
      e.pc = .done .success) (k : ℕ) (d : Call)
    (hd : Function.update s.calls i (some (.enter op ep ch)) k = some d) (hdop : d.op = .detach) :
    ∃ l e, Function.update s.calls i (some (.enter op ep ch)) l = some e ∧ e.op = .attach ∧
      e.ep = d.ep ∧ e.arg = d.arg ∧ e.pc = .done .success := by
  have hold : ∃ l e, s.calls l = some e ∧ e.op = .attach ∧ e.ep = d.ep ∧ e.arg = d.arg ∧
      e.pc = .done .success := by
    rcases calls_update s i k _ d hd with ⟨_, rfl⟩ | ⟨_, hd⟩
    · exact hnew hdop
    · exact h.attached k d hd hdop
  obtain ⟨l, e, he, hrest⟩ := hold
  exact ⟨l, e, update_entered s i l _ e hi he, hrest⟩

include hi in
theorem registered_enter (h : s.Registered) (hgiven : s.Given (.enter i op ep ch)) :
    Registered { s with calls := Function.update s.calls i (some (.enter op ep ch)) } := by
  cases op with
  | attach =>
    obtain ⟨hch, hport, hnew⟩ := hgiven
    refine ⟨args_enter s i _ ep ch h ⟨hch, hport⟩, distinct_enter s i _ ep ch _ h.ports ?_,
      distinct_enter s i _ ep ch _ h.groups ?_,
      attached_enter s i _ ep ch hi h (fun hop => absurd hop (by simp)),
      distinct_enter s i _ ep ch _ h.detaches ?_⟩
    · intro k c hk
      exact ⟨fun hs => (hnew k c hk hs.1).1 hs.2.2, fun hs => (hnew k c hk hs.2.1).1 hs.2.2.symm⟩
    · intro k c hk
      refine ⟨fun hs => (hnew k c hk hs.1).2 hs.2.2.1 hs.2.2.2, ?_⟩
      intro hs
      -- a common address makes both endpoints multicast
      have hm : c.isMcast = true := by
        unfold Call.isMcast
        rw [← hs.2.2.2]
        exact hs.2.2.1
      exact (hnew k c hk hs.2.1).2 hm hs.2.2.2.symm
    · intro k c hk
      exact ⟨fun hs => absurd hs.2.1 (by simp [Call.enter]), fun hs => absurd hs.1 (by simp [Call.enter])⟩
  | detach =>
    obtain ⟨⟨k₀, c₀, hk₀, hop₀, hep₀, harg₀, hdone₀⟩, hnew⟩ := hgiven
    have hargs : ch ≠ none ∧ ep.2 ≠ 0 := by
      rw [← hep₀, ← harg₀]
      exact h.args k₀ c₀ hk₀
    refine ⟨args_enter s i _ ep ch h hargs, distinct_enter s i _ ep ch _ h.ports ?_,
      distinct_enter s i _ ep ch _ h.groups ?_,
      attached_enter s i _ ep ch hi h (fun _ => ⟨k₀, c₀, hk₀, hop₀, hep₀, harg₀, hdone₀⟩),
      distinct_enter s i _ ep ch _ h.detaches ?_⟩
    · intro k c hk
      exact ⟨fun hs => absurd hs.2.1 (by simp [Call.enter]), fun hs => absurd hs.1 (by simp [Call.enter])⟩
    · intro k c hk
      exact ⟨fun hs => absurd hs.2.1 (by simp [Call.enter]), fun hs => absurd hs.1 (by simp [Call.enter])⟩
    · intro k c hk
      exact ⟨fun hs => hnew k c hk hs.1 hs.2.2, fun hs => hnew k c hk hs.2.1 hs.2.2.symm⟩

end Enter

/-! ## What the published tables hold -/

/-- The null entry, no port twice, and otherwise entries of attaches that have landed. -/
structure Sane (s : CasState) (sinks : Sinks) : Prop where
  null : nullSink ∈ sinks
  ports : (ports sinks).Nodup
  known : ∀ x ∈ sinks, x = nullSink ∨
    ∃ k c, s.calls k = some c ∧ c.op = .attach ∧ c.landed ∧ x = c.entry

/-- Where the entry of a detach can still be, at each point of the call. -/
def DetachOk (sh : Shared) (d : Call) : Prop :=
  match d.pc with
  | .load => (d.attempt = 0 ∧ d.entry ∈ sh.store.table) ∨ (0 < d.attempt ∧ d.isMcast = false)
  | .edit active =>
    (d.attempt = 0 ∧ d.entry ∈ sh.tables active) ∨
      (0 < d.attempt ∧ d.isMcast = false ∧ (d.entry ∈ sh.store.table → d.entry ∈ sh.tables active))
  | .cas active new => new = active ∧ d.entry ∉ sh.tables active ∧ 0 < d.attempt
  | .adjust => d.entry ∉ sh.store.table
  | .done _ => d.entry ∉ sh.store.table

structure TableInv (s : CasState) : Prop where
  sane : ∀ p ∈ s.shared.published, s.Sane (s.shared.tables p)
  present : ∀ i c, s.calls i = some c → c.op = .attach → c.landed →
    (∀ k d, s.calls k = some d → d.op = .detach → d.ep ≠ c.ep) → c.entry ∈ s.shared.store.table
  unmoved : ∀ i c, s.calls i = some c → c.op = .attach → (c.pc = .load ∨ ∃ a, c.pc = .edit a) →
    c.ch = c.arg
  detaching : ∀ k d, s.calls k = some d → d.op = .detach → d.ch = d.arg ∧ DetachOk s.shared d

theorem tableInv_initial : initial.TableInv where
  sane := by
    intro p hp
    refine ⟨List.mem_singleton_self _, by simp [initial, Shared.tables, Shared.initial,
      SinkStore.initial, DpdkTools.ports], ?_⟩
    intro x hx
    exact Or.inl (List.mem_singleton.mp hx)
  present := by simp [initial]
  unmoved := by simp [initial]
  detaching := by simp [initial]

theorem sane_mono (s s' : CasState) (sinks : Sinks)
    (hcalls : ∀ k c, s.calls k = some c → c.op = .attach → c.landed →
      ∃ c', s'.calls k = some c' ∧ c'.op = .attach ∧ c'.landed ∧ c'.entry = c.entry)
    (h : s.Sane sinks) : s'.Sane sinks := by
  refine ⟨h.null, h.ports, ?_⟩
  intro x hx
  rcases h.known x hx with rfl | ⟨k, c, hk, hop, hland, rfl⟩
  · exact Or.inl rfl
  · obtain ⟨c', hk', hop', hland', hentry⟩ := hcalls k c hk hop hland
    exact Or.inr ⟨k, c', hk', hop', hland', hentry.symm⟩

section Detach
variable (s : CasState) (k : ℕ) (d : Call) (hreg : s.Registered) (hd : s.calls k = some d)
  (hop : d.op = .detach)
include hreg hd hop

omit hop in
theorem entry_ne_null : d.entry ≠ nullSink := by
  intro h
  exact (hreg.args k d hd).2 (congrArg (fun x : Sink => x.1.2) h)

/-- In a table of the system the port of a detach belongs to its own entry only. -/
theorem entry_of_port (sinks : Sinks) (h : s.Sane sinks) (x : Sink) (hx : x ∈ sinks)
    (hport : x.1.2 = d.ep.2) : x = d.entry := by
  rcases h.known x hx with rfl | ⟨l, c, hl, hcop, -, rfl⟩
  · exact absurd hport.symm (hreg.args k d hd).2
  · obtain ⟨i, a, hi, haop, hep, harg, -⟩ := hreg.attached k d hd hop
    have hil : i = l := hreg.ports i l a c hi hl ⟨haop, hcop, by rw [hep]; exact hport.symm⟩
    subst hil
    obtain rfl := Option.some.inj (hi.symm.trans hl)
    unfold Call.entry
    rw [hep, harg]

theorem found_iff (sinks : Sinks) (h : s.Sane sinks) (hch : d.ch = d.arg) :
    d.found sinks = true ↔ d.entry ∈ sinks := by
  constructor
  · intro hf
    have hlt := found_lt d sinks hf
    have hget := List.getElem?_eq_getElem hlt
    have hentry := entry_of_port s k d hreg hd hop sinks h _ (List.getElem_mem hlt) (findSink_port hget)
    rw [← hentry]
    exact List.getElem_mem hlt
  · intro hmem
    have hget := findSink_of_mem sinks d.entry h.ports hmem
    unfold Call.found
    rw [show d.ep.2 = d.entry.1.2 from rfl, hget]
    simp [Call.entry, hch]

theorem found_getElem (sinks : Sinks) (h : s.Sane sinks) (hch : d.ch = d.arg)
    (hf : d.found sinks = true) : sinks[findSink sinks d.ep.2]? = some d.entry :=
  findSink_of_mem sinks d.entry h.ports ((found_iff s k d hreg hd hop sinks h hch).mp hf)

theorem mem_erased_iff (sinks : Sinks) (h : s.Sane sinks) (hch : d.ch = d.arg)
    (hf : d.found sinks = true) (y : Sink) :
    y ∈ sinks.eraseIdx (findSink sinks d.ep.2) ↔ y ∈ sinks ∧ y ≠ d.entry :=
  mem_eraseIdx_ports sinks _ d.entry y h.ports (found_getElem s k d hreg hd hop sinks h hch hf)

/-- Membership in any table after the erase. -/
theorem mem_overwritten (active : TablePtr) (h : s.Sane (s.shared.tables active)) (hch : d.ch = d.arg)
    (hf : d.found (s.shared.tables active) = true) (p : TablePtr) (y : Sink) :
    y ∈ (s.shared.overwrite active ((s.shared.tables active).eraseIdx
        (findSink (s.shared.tables active) d.ep.2))).tables p ↔
      y ∈ s.shared.tables p ∧ (p = active → y ≠ d.entry) := by
  show y ∈ Function.update s.shared.tables active _ p ↔ _
  by_cases hp : p = active
  · subst hp
    rw [Function.update_self, mem_erased_iff s k d hreg hd hop _ h hch hf]
    simp
  · rw [Function.update_of_ne hp]
    simp [hp]

theorem sane_erased (sinks : Sinks) (h : s.Sane sinks) (hch : d.ch = d.arg)
    (hf : d.found sinks = true) : s.Sane (sinks.eraseIdx (findSink sinks d.ep.2)) := by
  refine ⟨?_, ?_, ?_⟩
  · exact (mem_erased_iff s k d hreg hd hop sinks h hch hf nullSink).mpr
      ⟨h.null, (entry_ne_null s k d hreg hd).symm⟩
  · exact h.ports.sublist ((List.eraseIdx_sublist ..).map _)
  · intro x hx
    exact h.known x (List.mem_of_mem_eraseIdx hx)

end Detach

section Attach
variable (s : CasState) (i : ℕ) (c : Call) (hreg : s.Registered) (hc : s.calls i = some c)
  (hop : c.op = .attach) (hnot : ¬ c.landed)
include hreg hc hop hnot

/-- Every entry of a table is of an attach that has landed, so the port of another one is new. -/
theorem port_new (sinks : Sinks) (h : s.Sane sinks) : c.ep.2 ∉ ports sinks := by
  intro hin
  obtain ⟨x, hx, hport⟩ := List.mem_map.mp hin
  rcases h.known x hx with rfl | ⟨k, a, hk, haop, hland, rfl⟩
  · exact (hreg.args i c hc).2 hport.symm
  · have hki : k = i := hreg.ports k i a c hk hc ⟨haop, hop, hport⟩
    subst hki
    obtain rfl := Option.some.inj (hc.symm.trans hk)
    exact hnot hland

/-- The attach of a detach has returned. -/
theorem detach_entry_ne (k : ℕ) (d : Call) (hd : s.calls k = some d) (hdop : d.op = .detach) :
    d.entry ≠ c.entry := by
  intro he
  obtain ⟨l, a, hl, haop, hep, -, hdone⟩ := hreg.attached k d hd hdop
  have hli : l = i := hreg.ports l i a c hl hc
    ⟨haop, hop, by rw [hep]; exact congrArg (fun x : Sink => x.1.2) he⟩
  subst hli
  obtain rfl := Option.some.inj (hc.symm.trans hl)
  exact hnot (Or.inr ⟨_, hdone⟩)

end Attach

theorem sane_append (s : CasState) (i : ℕ) (c : Call) (hc : s.calls i = some c) (hop : c.op = .attach)
    (hland : c.landed) (sinks : Sinks) (hport : c.ep.2 ∉ ports sinks) (h : s.Sane sinks) :
    s.Sane (sinks ++ [c.entry]) := by
  refine ⟨List.mem_append_left _ h.null, ?_, ?_⟩
  · rw [DpdkTools.ports, List.map_append]
    refine h.ports.append (List.nodup_singleton _) ?_
    intro x hx hx'
    obtain rfl := List.mem_singleton.mp hx'
    exact hport hx
  · intro x hx
    rcases List.mem_append.mp hx with hx | hx
    · exact h.known x hx
    · obtain rfl := List.mem_singleton.mp hx
      exact Or.inr ⟨i, c, hc, hop, hland, rfl⟩

/-- The step leaves `x` where it is and brings it nowhere else. -/
def Keeps (sh sh' : Shared) (x : Sink) : Prop :=
  (x ∈ sh'.store.table ↔ x ∈ sh.store.table) ∧
    ∀ p ∈ sh.published, (x ∈ sh'.tables p ↔ x ∈ sh.tables p)

theorem detachOk_keeps (sh sh' : Shared) (d : Call) (hptrs : PtrsOk sh d) (hk : Keeps sh sh' d.entry)
    (h : DetachOk sh d) : DetachOk sh' d := by
  unfold DetachOk at h ⊢
  unfold PtrsOk at hptrs
  cases hpc : d.pc with
  | load =>
    simp only [hpc] at h ⊢
    rwa [hk.1]
  | edit active =>
    simp only [hpc] at h hptrs ⊢
    rwa [hk.1, hk.2 active hptrs]
  | cas active new =>
    simp only [hpc] at h hptrs ⊢
    rwa [hk.2 active hptrs.1]
  | adjust =>
    simp only [hpc] at h ⊢
    rwa [hk.1]
  | done r =>
    simp only [hpc] at h ⊢
    rwa [hk.1]

/-! ## Steps keep it -/

section Step
variable (s : CasState) (sh' : Shared) (i : ℕ) (c c' : Call) (svc : SvcTx) (hinv : s.Inv)
  (htab : s.TableInv) (hc : s.calls i = some c) (hm : CallMove s.shared c svc sh' c')

theorem landed_of_move (sh sh' : Shared) (c c' : Call) (svc : SvcTx)
    (hm : CallMove sh c svc sh' c') (h : c.landed) : c'.landed := by
  have hadjust : c.pc = .adjust := by
    rcases h with h | h
    · exact h
    · exact absurd h (Call.not_finished_of_move sh sh' c c' svc hm)
  cases hm with
  | adjust hpc hmcast => exact Or.inr ⟨_, rfl⟩
  | finish hpc hmcast => exact Or.inr ⟨_, rfl⟩
  | load hpc => exact absurd (hpc.symm.trans hadjust) (by simp)
  | refuse active hpc hop hch => exact absurd (hpc.symm.trans hadjust) (by simp)
  | build active hpc hop hch => exact absurd (hpc.symm.trans hadjust) (by simp)
  | erase active hpc hop hfound => exact absurd (hpc.symm.trans hadjust) (by simp)
  | missing active hpc hop hfound => exact absurd (hpc.symm.trans hadjust) (by simp)
  | swap active new hpc hactive => exact absurd (hpc.symm.trans hadjust) (by simp)
  | retry active new hpc hactive => exact absurd (hpc.symm.trans hadjust) (by simp)

include hc hm

theorem calls_forward (k : ℕ) (d : Call) (hd : s.calls k = some d) :
    ∃ d', Function.update s.calls i (some c') k = some d' ∧ Call.Same d d' ∧ (d.landed → d'.landed) := by
  by_cases hk : k = i
  · subst hk
    obtain rfl := Option.some.inj (hc.symm.trans hd)
    exact ⟨c', Function.update_self .., Call.same_of_move _ _ c c' svc hm,
      landed_of_move _ _ c c' svc hm⟩
  · exact ⟨d, update_other s i k c' d hk hd, ⟨rfl, rfl, rfl⟩, id⟩

theorem sane_run (sinks : Sinks) (h : s.Sane sinks) :
    Sane ⟨sh', Function.update s.calls i (some c'), s.held⟩ sinks := by
  refine sane_mono s _ sinks ?_ h
  intro k d hd hdop hland
  obtain ⟨d', hd', hs, hland'⟩ := calls_forward s sh' i c c' svc hc hm k d hd
  exact ⟨d', hd', hs.1.trans hdop, hland' hland, hs.entry_eq⟩

theorem no_detach_before (ep : Ip4Endpoint)
    (h : ∀ k d, Function.update s.calls i (some c') k = some d → d.op = .detach → d.ep ≠ ep) (k : ℕ)
    (d : Call) (hd : s.calls k = some d) (hdop : d.op = .detach) : d.ep ≠ ep := by
  obtain ⟨d', hd', hs, _⟩ := calls_forward s sh' i c c' svc hc hm k d hd
  rw [← hs.2.1]
  exact h k d' hd' (hs.1.trans hdop)

include hinv htab

theorem tableInv_quiet (hsinks : sh'.store.sinks = s.shared.store.sinks)
    (htables : ∀ p ∈ s.shared.published, sh'.tables p = s.shared.tables p)
    (hpub : sh'.published ⊆ s.shared.published)
    (hattach : c.op = .attach → (c'.landed → c.landed) ∧
      ((c'.pc = .load ∨ ∃ a, c'.pc = .edit a) → c'.ch = c'.arg))
    (hdetach : c.op = .detach → c'.ch = c'.arg ∧ DetachOk sh' c') :
    TableInv ⟨sh', Function.update s.calls i (some c'), s.held⟩ := by
  have hsame := Call.same_of_move _ _ c c' svc hm
  have htable : sh'.store.table = s.shared.store.table := by
    show sh'.tables sh'.store.sinks = s.shared.tables s.shared.store.sinks
    rw [hsinks, htables _ hinv.sinks_published]
  refine ⟨?_, ?_, ?_, ?_⟩
  · intro p hp
    show Sane _ (sh'.tables p)
    rw [htables p (hpub hp)]
    exact sane_run s sh' i c c' svc hc hm _ (htab.sane p (hpub hp))
  · intro k a ha haop hland hno
    show a.entry ∈ sh'.store.table
    rw [htable]
    have hno' := no_detach_before s sh' i c c' svc hc hm a.ep hno
    rcases calls_update s i k c' a ha with ⟨rfl, rfl⟩ | ⟨_, ha⟩
    · have hcop : c.op = .attach := hsame.1.symm.trans haop
      rw [hsame.2.1] at hno'
      rw [hsame.entry_eq]
      exact htab.present k c hc hcop ((hattach hcop).1 hland) hno'
    · exact htab.present k a ha haop hland hno'
  · intro k a ha haop hpc
    rcases calls_update s i k c' a ha with ⟨rfl, rfl⟩ | ⟨_, ha⟩
    · exact (hattach (hsame.1.symm.trans haop)).2 hpc
    · exact htab.unmoved k a ha haop hpc
  · intro k d hd hdop
    rcases calls_update s i k c' d hd with ⟨rfl, rfl⟩ | ⟨_, hd⟩
    · exact hdetach (hsame.1.symm.trans hdop)
    · obtain ⟨hch, hok⟩ := htab.detaching k d hd hdop
      refine ⟨hch, detachOk_keeps s.shared sh' d (hinv.calls k d hd) ?_ hok⟩
      exact ⟨by rw [htable], fun p hp => by rw [htables p hp]⟩

end Step

theorem tableInv_erase (s : CasState) (i : ℕ) (c : Call) (svc : SvcTx) (active : TablePtr)
    (hinv : s.Inv) (hreg : s.Registered) (htab : s.TableInv) (hc : s.calls i = some c)
    (hpc : c.pc = .edit active) (hop : c.op = .detach)
    (hfound : c.found (s.shared.tables active) = true) :
    TableInv
      ⟨s.shared.overwrite active
          ((s.shared.tables active).eraseIdx (findSink (s.shared.tables active) c.ep.2)),
        Function.update s.calls i (some { c with attempt := c.attempt + 1, pc := .cas active active }),
        s.held⟩ := by
  have hm : CallMove s.shared c svc _ _ := .erase active hpc hop hfound
  have hactive : active ∈ s.shared.published := by
    have := hinv.calls i c hc
    simpa only [PtrsOk, hpc] using this
  obtain ⟨hch, -⟩ := htab.detaching i c hc hop
  have hsane := htab.sane active hactive
  have hmem := mem_overwritten s i c hreg hc hop active hsane hch hfound
  refine ⟨?_, ?_, ?_, ?_⟩
  · intro p hp
    refine sane_run s _ i c _ svc hc hm _ ?_
    by_cases hpa : p = active
    · subst hpa
      show s.Sane (Function.update s.shared.tables p _ p)
      rw [Function.update_self]
      exact sane_erased s i c hreg hc hop _ hsane hch hfound
    · show s.Sane (Function.update s.shared.tables active _ p)
      rw [Function.update_of_ne hpa]
      exact htab.sane p hp
  · intro k a ha haop hland hno
    rcases calls_update s i k _ a ha with ⟨_, rfl⟩ | ⟨_, ha⟩
    · exact absurd (hop.symm.trans haop) (by simp)
    · refine (hmem _ _).mpr ⟨htab.present k a ha haop hland
        (no_detach_before s _ i c _ svc hc hm a.ep hno), ?_⟩
      intro _ hentry
      exact hno i _ (Function.update_self ..) hop (congrArg Prod.fst hentry).symm
  · intro k a ha haop hpc'
    rcases calls_update s i k _ a ha with ⟨_, rfl⟩ | ⟨_, ha⟩
    · exact absurd (hop.symm.trans haop) (by simp)
    · exact htab.unmoved k a ha haop hpc'
  · intro k d hd hdop
    rcases calls_update s i k _ d hd with ⟨rfl, rfl⟩ | ⟨hki, hd⟩
    · exact ⟨hch, rfl, fun h => ((hmem _ _).mp h).2 rfl rfl, Nat.succ_pos _⟩
    · obtain ⟨hdch, hok⟩ := htab.detaching k d hd hdop
      have hne : d.entry ≠ c.entry := by
        intro he
        exact hki (hreg.detaches k i d c hd hc ⟨hdop, hop, congrArg Prod.fst he⟩)
      refine ⟨hdch, detachOk_keeps s.shared _ d (hinv.calls k d hd) ?_ hok⟩
      exact ⟨(hmem _ _).trans (and_iff_left fun _ => hne),
        fun p _ => (hmem p _).trans (and_iff_left fun _ => hne)⟩

theorem tableInv_append (s : CasState) (i : ℕ) (c : Call) (svc : SvcTx) (active new : TablePtr)
    (hinv : s.Inv) (hreg : s.Registered) (htab : s.TableInv) (hc : s.calls i = some c)
    (hpc : c.pc = .cas active new) (hop : c.op = .attach) (hactive : s.shared.store.sinks = active)
    (hnew : s.shared.tables new = s.shared.tables active ++ [c.entry]) :
    TableInv ⟨s.shared.swap new, Function.update s.calls i (some { c with pc := .adjust }), s.held⟩ := by
  have hm : CallMove s.shared c svc _ _ := .swap active new hpc hactive
  have hmem : ∀ y, y ∈ (s.shared.swap new).store.table ↔ y ∈ s.shared.store.table ∨ y = c.entry := by
    intro y
    show y ∈ s.shared.tables new ↔ y ∈ s.shared.tables s.shared.store.sinks ∨ _
    rw [hnew, hactive]
    simp
  have hnotlanded : ¬ c.landed := Call.not_landed_of_pc (by simp [hpc]) (by simp [hpc])
  have hsane := htab.sane active (hactive ▸ hinv.sinks_published)
  refine ⟨?_, ?_, ?_, ?_⟩
  · intro p hp
    show Sane _ (s.shared.tables p)
    rcases List.mem_cons.mp hp with rfl | hp
    · rw [hnew]
      exact sane_append _ i { c with pc := .adjust } (Function.update_self ..) hop (Or.inl rfl) _
        (port_new s i c hreg hc hop hnotlanded _ hsane) (sane_run s _ i c _ svc hc hm _ hsane)
    · exact sane_run s _ i c _ svc hc hm _ (htab.sane p hp)
  · intro k a ha haop hland hno
    rcases calls_update s i k _ a ha with ⟨_, rfl⟩ | ⟨_, ha⟩
    · exact (hmem _).mpr (Or.inr rfl)
    · exact (hmem _).mpr (Or.inl (htab.present k a ha haop hland
        (no_detach_before s _ i c _ svc hc hm a.ep hno)))
  · intro k a ha haop hpc'
    rcases calls_update s i k _ a ha with ⟨_, rfl⟩ | ⟨_, ha⟩
    · rcases hpc' with h | ⟨_, h⟩
      · exact absurd h (by simp)
      · exact absurd h (by simp)
    · exact htab.unmoved k a ha haop hpc'
  · intro k d hd hdop
    rcases calls_update s i k _ d hd with ⟨_, rfl⟩ | ⟨_, hd⟩
    · exact absurd (hop.symm.trans hdop) (by simp)
    · obtain ⟨hdch, hok⟩ := htab.detaching k d hd hdop
      refine ⟨hdch, detachOk_keeps s.shared _ d (hinv.calls k d hd) ⟨?_, fun p _ => Iff.rfl⟩ hok⟩
      rw [hmem]
      exact or_iff_left (detach_entry_ne s i c hreg hc hop hnotlanded k d hd hdop)

theorem channel_present (s : CasState) (i : ℕ) (c : Call) (active : TablePtr) (hreg : s.Registered)
    (htab : s.TableInv) (hc : s.calls i = some c) (hpc : c.pc = .edit active) (hop : c.op = .attach) :
    c.ch ≠ none := by
  rw [htab.unmoved i c hc hop (Or.inr ⟨active, hpc⟩)]
  exact (hreg.args i c hc).1

/-- A detach that finds its entry gone has erased it in an earlier round. -/
theorem missing_retried (s : CasState) (i : ℕ) (c : Call) (active : TablePtr) (hinv : s.Inv)
    (hreg : s.Registered) (htab : s.TableInv) (hc : s.calls i = some c) (hpc : c.pc = .edit active)
    (hop : c.op = .detach) (hfound : c.found (s.shared.tables active) = false) :
    c.ch = c.arg ∧ 0 < c.attempt ∧ c.isMcast = false ∧ c.entry ∉ s.shared.store.table := by
  obtain ⟨hch, hok⟩ := htab.detaching i c hc hop
  have hactive := hinv.calls i c hc
  unfold PtrsOk at hactive
  unfold DetachOk at hok
  simp only [hpc] at hok hactive
  have hnot : c.entry ∉ s.shared.tables active := by
    intro hin
    have := (found_iff s i c hreg hc hop _ (htab.sane active hactive) hch).mpr hin
    rw [hfound] at this
    exact absurd this (by simp)
  rcases hok with ⟨_, hin⟩ | ⟨hpos, hmcast, himp⟩
  · exact absurd hin hnot
  · exact ⟨hch, hpos, hmcast, fun hin => hnot (himp hin)⟩

theorem tableInv_run (s : CasState) (sh' : Shared) (i : ℕ) (c c' : Call) (svc : SvcTx) (hinv : s.Inv)
    (hreg : s.Registered) (htab : s.TableInv) (hc : s.calls i = some c)
    (hsteady : s.Steady (.run i svc)) (hm : CallMove s.shared c svc sh' c') :
    TableInv ⟨sh', Function.update s.calls i (some c'), s.held⟩ := by
  have hquiet := tableInv_quiet s sh' i c c' svc hinv htab hc hm
  have hsteady' : c.Steady s.shared svc := hsteady c hc
  have hok : c.op = .detach → c.ch = c.arg ∧ DetachOk s.shared c := htab.detaching i c hc
  unfold DetachOk at hok
  cases hm with
  | load hpc =>
    simp only [hpc] at hok
    refine hquiet rfl (fun _ _ => rfl) (fun _ h => h) ?_ ?_
    · intro hop
      refine ⟨fun h => absurd h (Call.not_landed_of_pc (by simp) (by simp)), ?_⟩
      intro _
      exact htab.unmoved i c hc hop (Or.inl hpc)
    · intro hop
      obtain ⟨hch, ⟨h0, hin⟩ | ⟨hpos, hmcast⟩⟩ := hok hop
      · exact ⟨hch, Or.inl ⟨h0, hin⟩⟩
      · exact ⟨hch, Or.inr ⟨hpos, hmcast, id⟩⟩
  | refuse active hpc hop hch => exact absurd hch (channel_present s i c active hreg htab hc hpc hop)
  | build active hpc hop hch =>
    refine hquiet rfl ?_ (fun _ h => h) ?_ (fun hop' => absurd (hop.symm.trans hop') (by simp))
    · intro p hp
      exact Function.update_of_ne (Nat.ne_of_lt (hinv.published_old p hp)) ..
    · intro _
      exact ⟨fun h => absurd h (Call.not_landed_of_pc (by simp) (by simp)), by simp⟩
  | erase active hpc hop hfound => exact tableInv_erase s i c svc active hinv hreg htab hc hpc hop hfound
  | missing active hpc hop hfound =>
    obtain ⟨hch, -, -, hnot⟩ := missing_retried s i c active hinv hreg htab hc hpc hop hfound
    exact hquiet rfl (fun _ _ => rfl) (fun _ h => h)
      (fun hop' => absurd (hop.symm.trans hop') (by simp)) (fun _ => ⟨hch, hnot⟩)
  | swap active new hpc hactive =>
    rcases c.op_cases with hop | hop
    · exact tableInv_append s i c svc active new hinv hreg htab hc hpc hop hactive
        (hsteady'.attach active new hop hpc).2
    · simp only [hpc] at hok
      obtain ⟨hch, rfl, hnot, -⟩ := hok hop
      refine hquiet hactive.symm (fun _ _ => rfl) ?_ (fun hop' => absurd (hop.symm.trans hop') (by simp))
        (fun _ => ⟨hch, by subst hactive; exact hnot⟩)
      intro p hp
      rcases List.mem_cons.mp hp with rfl | hp
      · exact hactive ▸ hinv.sinks_published
      · exact hp
  | retry active new hpc hactive =>
    simp only [hpc] at hok
    refine hquiet rfl (fun _ _ => rfl) (fun _ h => h) ?_ ?_
    · intro hop
      exact absurd (hsteady'.attach active new hop hpc).1 hactive
    · intro hop
      obtain ⟨hch, -, -, hpos⟩ := hok hop
      refine ⟨hch, Or.inr ⟨hpos, ?_⟩⟩
      show c.isMcast = false
      by_contra hmcast
      exact hactive (hsteady'.detach active new hop hpc (by simpa using hmcast))
  | adjust hpc hmcast =>
    simp only [hpc] at hok
    exact hquiet rfl (fun _ _ => rfl) (fun _ h => h) (fun _ => ⟨fun _ => Or.inl hpc, by simp⟩) hok
  | finish hpc hmcast =>
    simp only [hpc] at hok
    exact hquiet rfl (fun _ _ => rfl) (fun _ h => h) (fun _ => ⟨fun _ => Or.inl hpc, by simp⟩) hok

theorem tableInv_enter (s : CasState) (i : ℕ) (op : CallOp) (ep : Ip4Endpoint)
    (ch : Option ChannelPtr) (htab : s.TableInv) (hi : s.calls i = none)
    (hgiven : s.Given (.enter i op ep ch)) :
    TableInv { s with calls := Function.update s.calls i (some (.enter op ep ch)) } := by
  have hold : ∀ k d, s.calls k = some d →
      Function.update s.calls i (some (.enter op ep ch)) k = some d :=
    fun k d hk => update_entered s i k _ d hi hk
  refine ⟨?_, ?_, ?_, ?_⟩
  · intro p hp
    refine sane_mono s _ _ ?_ (htab.sane p hp)
    intro k c hk hop hland
    exact ⟨c, hold k c hk, hop, hland, rfl⟩
  · intro k a ha haop hland hno
    rcases calls_update s i k _ a ha with ⟨_, rfl⟩ | ⟨_, ha⟩
    · exact absurd hland (Call.not_landed_of_pc (by simp [Call.enter]) (by simp [Call.enter]))
    · exact htab.present k a ha haop hland (fun l d hl => hno l d (hold l d hl))
  · intro k a ha haop hpc
    rcases calls_update s i k _ a ha with ⟨_, rfl⟩ | ⟨_, ha⟩
    · rfl
    · exact htab.unmoved k a ha haop hpc
  · intro k d hd hdop
    rcases calls_update s i k _ d hd with ⟨_, rfl⟩ | ⟨_, hd⟩
    · cases op with
      | attach => exact absurd hdop (by simp [Call.enter])
      | detach =>
        -- the pair is attached, and nobody detaches it yet
        obtain ⟨⟨k₀, c₀, hk₀, hop₀, hep₀, harg₀, hdone₀⟩, hnew⟩ := hgiven
        have hin := htab.present k₀ c₀ hk₀ hop₀ (Or.inr ⟨_, hdone₀⟩)
          (fun l e hl hlop => hep₀ ▸ hnew l e hl hlop)
        refine ⟨rfl, Or.inl ⟨rfl, ?_⟩⟩
        show (ep, ch) ∈ s.shared.store.table
        rw [← hep₀, ← harg₀]
        exact hin
    · exact htab.detaching k d hd hdop

end CasState

end DpdkTools
