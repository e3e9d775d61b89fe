import Mathlib.Data.List.Nodup
import Mathlib.Logic.Function.Basic
import DpdkTools.Lib.Runs

/-! Source ports: `device::next_src_port` (`dpdkx/device.cpp`), called by any number of threads.

A call takes a port off the shared counter and, where the counter was below the configured base,
tries to set it back with a weak compare-exchange. A failed exchange overwrites `res` with what the
counter is, and ends the loop. -/
namespace DpdkTools
open Runs
set_option autoImplicit false

/-- Where a thread stands: before the fetch-add, or behind one that gave a port below the base. -/
inductive PortPc where
  | fetch
  | exchange (res : UInt16)
  deriving Repr, DecidableEq

/-- `next_src_port_`, the threads, and the ports returned so far. -/
structure SrcPorts where
  nextSrcPort : UInt16
  pc : ℕ → PortPc
  returned : List UInt16

/-- An atomic step of the thread `t`; a weak exchange may fail for no reason. -/
inductive PortEvent where
  | fetchAdd (t : ℕ)
  | compareExchange (t : ℕ) (spurious : Bool)
  deriving Repr, DecidableEq

namespace SrcPorts

def initial (base : UInt16) : SrcPorts := ⟨base, fun _ => .fetch, []⟩

def goto (s : SrcPorts) (t : ℕ) (pc : PortPc) : SrcPorts := { s with pc := Function.update s.pc t pc }

def ret (s : SrcPorts) (t : ℕ) (res : UInt16) : SrcPorts :=
  { s.goto t .fetch with returned := s.returned ++ [res] }

/-- `base` is `config_.next_src_port`. -/
def step (base : UInt16) (s : SrcPorts) : PortEvent → Option SrcPorts
  | .fetchAdd t =>
    match s.pc t with
    | .fetch =>
      let res := s.nextSrcPort
      let s := { s with nextSrcPort := res + 1 }
      if res < base then some (s.goto t (.exchange res)) else some (s.ret t res)
    | .exchange _ => none
  | .compareExchange t spurious =>
    match s.pc t with
    | .fetch => none
    | .exchange res =>
      if s.nextSrcPort = res ∧ spurious = false then
        some ({ s with nextSrcPort := base }.goto t .fetch)
      else some (s.ret t s.nextSrcPort)

/-- The counter has not started again from zero when a port is taken off it. -/
def NotWrapped (base : UInt16) (s : SrcPorts) : PortEvent → Prop
  | .fetchAdd _ => base ≤ s.nextSrcPort
  | .compareExchange _ _ => True

/-- The ports from the base on, in order. -/
def ports (base : UInt16) (n : ℕ) : List UInt16 :=
  (List.range n).map fun i => UInt16.ofNat (base.toNat + i)

theorem ports_succ (base : UInt16) (n : ℕ) :
    ports base (n + 1) = ports base n ++ [UInt16.ofNat (base.toNat + n)] := by
  rw [ports, List.range_succ, List.map_append]
  rfl

theorem toNat_port (base : UInt16) (i n : ℕ) (hn : base.toNat + n ≤ 2 ^ 16) (hi : i < n) :
    (UInt16.ofNat (base.toNat + i)).toNat = base.toNat + i := by
  rw [UInt16.toNat_ofNat']
  exact Nat.mod_eq_of_lt (by omega)

theorem ports_range (base : UInt16) (n : ℕ) (hn : base.toNat + n ≤ 2 ^ 16) :
    ∀ p ∈ ports base n, base.toNat ≤ p.toNat ∧ p.toNat ≤ 65535 := by
  intro p hp
  obtain ⟨i, hi, rfl⟩ := List.mem_map.mp hp
  have hlt := List.mem_range.mp hi
  rw [toNat_port base i n hn hlt]
  omega

theorem ports_nodup (base : UInt16) (n : ℕ) (hn : base.toNat + n ≤ 2 ^ 16) : (ports base n).Nodup := by
  apply List.Nodup.map_on _ List.nodup_range
  intro i hi j hj heq
  have hnat := congrArg UInt16.toNat heq
  rw [toNat_port base i n hn (List.mem_range.mp hi), toNat_port base j n hn (List.mem_range.mp hj)]
    at hnat
  omega

/-- As long as the counter has not wrapped, no thread is behind a failed comparison, and the ports
returned are the first ones from the base on. -/
structure InOrder (base : UInt16) (s : SrcPorts) : Prop where
  pc : ∀ t, s.pc t = .fetch
  returned : s.returned = ports base s.returned.length
  counter : s.nextSrcPort = UInt16.ofNat (base.toNat + s.returned.length)
  few : base.toNat + s.returned.length ≤ 2 ^ 16

theorem initial_inOrder (base : UInt16) : (initial base).InOrder base where
  pc _ := rfl
  returned := rfl
  counter := UInt16.ofNat_toNat.symm
  few := Nat.le_of_lt base.toNat_lt

theorem step_inOrder (base : UInt16) (hbase : 1 ≤ base.toNat) (s : SrcPorts) (e : PortEvent)
    (s' : SrcPorts) (h : s.InOrder base) (hc : s.NotWrapped base e) (hstep : s.step base e = some s') :
    s'.InOrder base := by
  cases e with
  | compareExchange t spurious =>
    rw [step, h.pc t] at hstep
    exact absurd hstep (by simp)
  | fetchAdd t =>
    rw [step, h.pc t] at hstep
    have hle : base.toNat ≤ s.nextSrcPort.toNat := UInt16.le_iff_toNat_le.mp hc
    have hge : ¬ s.nextSrcPort < base := by
      rw [UInt16.lt_iff_toNat_lt]
      omega
    simp only [hge, if_false, Option.some.injEq] at hstep
    -- a counter that has passed all ports is zero, below the base
    have hroom : base.toNat + s.returned.length < 2 ^ 16 := by
      have hfew := h.few
      have hcounter := congrArg UInt16.toNat h.counter
      rw [UInt16.toNat_ofNat'] at hcounter
      by_contra hcon
      have hfull : base.toNat + s.returned.length = 2 ^ 16 := by omega
      rw [hfull] at hcounter
      omega
    subst hstep
    refine ⟨?_, ?_, ?_, ?_⟩
    · intro u
      by_cases hu : u = t
      · subst hu
        exact Function.update_self ..
      · exact (Function.update_of_ne hu ..).trans (h.pc u)
    · simp only [ret, goto, List.length_append, List.length_singleton]
      rw [ports_succ, ← h.returned, ← h.counter]
    · simp only [ret, goto, List.length_append, List.length_singleton]
      rw [h.counter, ← Nat.add_assoc, UInt16.ofNat_add (base.toNat + s.returned.length) 1]
      rfl
    · simp only [ret, goto, List.length_append, List.length_singleton]
      omega

/-- A run in which the counter does not wrap returns ports from the base on, all different, however
its threads interleave. -/
theorem ports_distinct (base : UInt16) (hbase : 1 ≤ base.toNat) (es : List PortEvent)
    (tr : List (Transition SrcPorts PortEvent)) (htr : trace (step base) (initial base) es = some tr)
    (hc : ∀ t ∈ tr, t.pre.NotWrapped base t.event) :
    ∀ t ∈ tr, (∀ p ∈ t.post.returned, base.toNat ≤ p.toNat ∧ p.toNat ≤ 65535) ∧
      t.post.returned.Nodup := by
  have hrun := trace_invariant (InOrder base) (fun s e => s.NotWrapped base e)
    (fun s e s' => step_inOrder base hbase s e s') (initial base) es tr htr (initial_inOrder base) hc
  intro t ht
  have hpost := (hrun.2 t ht).2
  rw [hpost.returned]
  exact ⟨ports_range base _ hpost.few, ports_nodup base _ hpost.few⟩

theorem ports_distinct_two : ∃ tr,
    trace (step 40000) (initial 40000) [.fetchAdd 0, .fetchAdd 1] = some tr ∧
      ∀ t ∈ tr, (∀ p ∈ t.post.returned, 40000 ≤ p.toNat ∧ p.toNat ≤ 65535) ∧
        t.post.returned.Nodup := by
  refine ⟨_, rfl, ports_distinct 40000 (by decide) [.fetchAdd 0, .fetchAdd 1] _ rfl ?_⟩
  intro t ht
  rcases List.mem_cons.mp ht with rfl | ht
  · show (40000 : UInt16) ≤ 40000
    decide
  · obtain rfl := List.mem_singleton.mp ht
    show (40000 : UInt16) ≤ 40001
    decide

/-! ## Behind the wrap -/

/-- What a call alone does below the base: the exchange compares with the value before the
increment, so it fails, and the call returns the value after it. -/
theorem wrapped_call (base : UInt16) (s : SrcPorts) (t : ℕ) (spurious : Bool) (hpc : s.pc t = .fetch)
    (hlt : s.nextSrcPort < base) : ∃ s₁ s₂, s.step base (.fetchAdd t) = some s₁ ∧
      s₁.step base (.compareExchange t spurious) = some s₂ ∧
      s₂.returned = s.returned ++ [s.nextSrcPort + 1] ∧ (s.nextSrcPort + 1).toNat ≤ base.toNat := by
  have hnat : s.nextSrcPort.toNat < base.toNat := UInt16.lt_iff_toNat_lt.mp hlt
  have hsucc : (s.nextSrcPort + 1).toNat = s.nextSrcPort.toNat + 1 := by
    have hb := base.toNat_lt
    rw [UInt16.toNat_add]
    exact Nat.mod_eq_of_lt (by show s.nextSrcPort.toNat + 1 < 2 ^ 16; omega)
  have hne : s.nextSrcPort + 1 ≠ s.nextSrcPort := by
    intro heq
    rw [heq] at hsucc
    omega
  let taken := { s with nextSrcPort := s.nextSrcPort + 1 }.goto t (.exchange s.nextSrcPort)
  have hfetch : s.step base (.fetchAdd t) = some taken := by
    rw [step, hpc]
    exact if_pos hlt
  have hexchange : taken.step base (.compareExchange t spurious) =
      some (taken.ret t (s.nextSrcPort + 1)) := by
    simp only [taken, step, goto, Function.update_self, hne, false_and, if_false]
  exact ⟨taken, _, hfetch, hexchange, rfl, by omega⟩

/-- Two calls of one thread with the base 65535: the second returns 1. -/
theorem port_below_base : ∃ tr,
    trace (step 65535) (initial 65535)
      [.fetchAdd 0, .fetchAdd 0, .compareExchange 0 false] = some tr ∧
    (final (initial 65535) tr).returned = [65535, 1] ∧ ¬ (65535 : UInt16).toNat ≤ (1 : UInt16).toNat := by
  exact ⟨_, rfl, rfl, by decide⟩

end SrcPorts
end DpdkTools
