import DpdkTools.Device.ArpLink
import DpdkTools.RunJobs

/-! Waiting for a hardware address: `ether_address` with a list of jobs (`dpdkx/jobs.cpp`).

The loop asks the device, runs the jobs once and asks again. It reads `running` and the clock after
the jobs, so that an answer that comes in the last round is not returned. Jobs that throw end the
program (the function is `noexcept`). -/
namespace DpdkTools.EtherWait
open Runs
set_option autoImplicit false

inductive WaitErrc where
  | notSupported
  | connectionAborted
  | operationCanceled
  | timedOut
  deriving Repr, DecidableEq

/-- What the loop meets: the device, the jobs, the flag and the clock, all read from one state that
asking and every job may change, as other threads may meanwhile. -/
structure World (J σ : Type) where
  config : DeviceConfig
  arp : σ → ArpTable
  /-- What the service pool gives. -/
  buffer : σ → Option Mbuf
  /-- Whether the service ring takes a request. -/
  room : σ → Bool
  asked : σ → Asked → σ
  process : J → σ → JobState × σ
  running : σ → Bool
  /-- In ticks of the clock. -/
  now : σ → ℤ

structure Waiting (J σ : Type) where
  jobs : List J
  env : σ

structure Waited (J σ : Type) where
  result : Except WaitErrc (List UInt8)
  jobs : List J
  env : σ

section Loop
variable {J σ : Type} (w : World J σ) (ip4addr : Be32)

def World.ask (env : σ) : Asked :=
  etherAddress w.config (w.arp env) ip4addr (w.buffer env) (w.room env)

variable (start timeout : ℤ)

/-- The body of the loop with its condition. -/
def pass (s : Waiting J σ) : Option (Waiting J σ ⊕ Waited J σ) :=
  let res := w.ask ip4addr s.env
  let env := w.asked s.env res
  match res.result with
  | .ok mac => some (.inr ⟨.ok mac, s.jobs, env⟩)
  | .error .notSupported => some (.inr ⟨.error .notSupported, s.jobs, env⟩)
  | .error _ =>
    (runJobsOnce w.process s.jobs env).map fun o =>
      if o.state = .done then .inr ⟨.error .connectionAborted, o.jobs, o.env⟩
      else if w.running o.env = false then .inr ⟨.error .operationCanceled, o.jobs, o.env⟩
      else if w.now o.env - start < timeout then .inl ⟨o.jobs, o.env⟩
      else .inr ⟨.error .timedOut, o.jobs, o.env⟩

/-- `none` is a loop that has not ended after `fuel` passes. -/
def loop : ℕ → Waiting J σ → Option (Waited J σ)
  | 0, _ => none
  | fuel + 1, s =>
    match pass w ip4addr start timeout s with
    | some (.inl s') => loop fuel s'
    | some (.inr o) => some o
    | none => none

/-- `ether_address` of `jobs.cpp`. -/
def etherAddressFor (fuel : ℕ) (jobs : List J) (env : σ) : Option (Waited J σ) :=
  loop w ip4addr (w.now env) timeout fuel ⟨jobs, env⟩

/-! ## What a pass can do -/

/-- After the jobs of a pass. -/
def World.afterRound (s : Waiting J σ) : σ :=
  afterAll w.process s.jobs (w.asked s.env (w.ask ip4addr s.env))

def World.jobsLeft (s : Waiting J σ) : List J :=
  unfinished (answers w.process s.jobs (w.asked s.env (w.ask ip4addr s.env)))

inductive Passes (s : Waiting J σ) : Waiting J σ ⊕ Waited J σ → Prop
  | answered (mac : List UInt8) : (w.ask ip4addr s.env).result = .ok mac →
      Passes s (.inr ⟨.ok mac, s.jobs, w.asked s.env (w.ask ip4addr s.env)⟩)
  | notSupported : (w.ask ip4addr s.env).result = .error .notSupported →
      Passes s (.inr ⟨.error .notSupported, s.jobs, w.asked s.env (w.ask ip4addr s.env)⟩)
  | aborted : w.jobsLeft ip4addr s = [] →
      Passes s (.inr ⟨.error .connectionAborted, w.jobsLeft ip4addr s, w.afterRound ip4addr s⟩)
  | canceled : w.running (w.afterRound ip4addr s) = false →
      Passes s (.inr ⟨.error .operationCanceled, w.jobsLeft ip4addr s, w.afterRound ip4addr s⟩)
  | waits : w.running (w.afterRound ip4addr s) = true →
      w.now (w.afterRound ip4addr s) < start + timeout →
      Passes s (.inl ⟨w.jobsLeft ip4addr s, w.afterRound ip4addr s⟩)
  | timedOut : w.running (w.afterRound ip4addr s) = true →
      start + timeout ≤ w.now (w.afterRound ip4addr s) →
      Passes s (.inr ⟨.error .timedOut, w.jobsLeft ip4addr s, w.afterRound ip4addr s⟩)

theorem pass_passes (s : Waiting J σ) :
    ∃ r, pass w ip4addr start timeout s = some r ∧ Passes w ip4addr start timeout s r := by
  obtain ⟨state, hround, hdone, _⟩ :=
    runJobsOnce_asks_each w.process s.jobs (w.asked s.env (w.ask ip4addr s.env))
  have hwaits : ∃ r, (runJobsOnce w.process s.jobs (w.asked s.env (w.ask ip4addr s.env))).map
      (fun o =>
        if o.state = .done then .inr ⟨.error .connectionAborted, o.jobs, o.env⟩
        else if w.running o.env = false then .inr ⟨.error .operationCanceled, o.jobs, o.env⟩
        else if w.now o.env - start < timeout then .inl ⟨o.jobs, o.env⟩
        else .inr ⟨.error .timedOut, o.jobs, o.env⟩) = some r ∧
      Passes w ip4addr start timeout s r := by
    rw [hround]
    refine ⟨_, rfl, ?_⟩
    dsimp only
    split_ifs with hstate hrunning htime
    · exact .aborted ((unfinished_eq_nil_iff _).mpr (hdone.mp hstate).2)
    · exact .canceled hrunning
    · exact .waits (Bool.not_eq_false _ ▸ hrunning) (Int.lt_add_of_sub_left_lt htime)
    · exact .timedOut (Bool.not_eq_false _ ▸ hrunning) (Int.add_le_of_le_sub_left (Int.not_lt.mp htime))
  unfold pass
  dsimp only
  cases hres : (w.ask ip4addr s.env).result with
  | ok mac => exact ⟨_, rfl, .answered mac hres⟩
  | error e =>
    cases e with
    | notSupported => exact ⟨_, rfl, .notSupported hres⟩
    | resourceUnavailableTryAgain => exact hwaits
    | noBufferSpace => exact hwaits

/-! ## What is returned -/

theorem etherAddress_notSupported (c : DeviceConfig) (arp : ArpTable) (buffer : Option Mbuf)
    (room : Bool) (h : (etherAddress c arp ip4addr buffer room).result = .error .notSupported) :
    c.arpTable = false := by
  by_contra hon
  rw [Bool.not_eq_false] at hon
  cases hown : isOwnRange ip4addr with
  | true =>
    rw [etherAddress.eq_def, hown, if_pos rfl] at h
    exact absurd h (by simp)
  | false =>
    obtain ⟨hok, hnone⟩ := ArpHistory.etherAddress_result c hon arp ip4addr buffer room hown
    cases hres : resolved arp ip4addr with
    | some mac =>
      rw [(hok mac).mpr hres] at h
      exact absurd h (by simp)
    | none =>
      obtain h' | h' := hnone hres
      · rw [h'] at h
        exact absurd h (by decide)
      · rw [h'] at h
        exact absurd h (by decide)

variable {ι : Type} [DecidableEq ι] (configs : ι → DeviceConfig)

/-- Each result has its reason in the state that the loop leaves. -/
def Justified (o : Waited J σ) : Prop :=
  match o.result with
  | .ok mac =>
    isOwnRange ip4addr = true ∧ mac = w.config.macAddr ∨
      ∃ j, (configs j).ip4Addr = ip4addr ∧ (configs j).macAddr = mac
  | .error .notSupported => w.config.arpTable = false
  | .error .connectionAborted => o.jobs = []
  | .error .operationCanceled => w.running o.env = false
  | .error .timedOut => w.running o.env = true ∧ start + timeout ≤ w.now o.env

/-- A run of the link from one of its states to another. -/
def LinkRun (s s' : ArpLink ι) : Prop :=
  ∃ es tr, trace (ArpLink.step configs) s es = some tr ∧ s' = final s tr

/-- The device is one of those on a link. While the loop asks or a job runs, the link takes steps of
whatever devices. -/
structure OnLink (i : ι) (link : σ → ArpLink ι) : Prop where
  config : w.config = configs i
  arp : ∀ env, w.arp env = (link env).arp i
  asked : ∀ env, LinkRun configs (link env) (link (w.asked env (w.ask ip4addr env)))
  process : ∀ j env, LinkRun configs (link env) (link (w.process j env).2)

variable {w ip4addr configs start timeout} {i : ι} {link : σ → ArpLink ι}

theorem LinkRun.inv {s s' : ArpLink ι} (h : LinkRun configs s s')
    (hmac : ∀ j, (configs j).macAddr.length = 6) (hs : s.Inv configs) : s'.Inv configs := by
  obtain ⟨es, tr, htr, rfl⟩ := h
  exact (ArpLink.run_inv configs hmac s es tr htr hs).1

theorem OnLink.afterAll (hlink : OnLink w ip4addr configs i link)
    (hmac : ∀ j, (configs j).macAddr.length = 6) (jobs : List J) (env : σ)
    (henv : (link env).Inv configs) : (link (afterAll w.process jobs env)).Inv configs := by
  induction jobs generalizing env with
  | nil => exact henv
  | cons j jobs ih => exact ih _ ((hlink.process j env).inv hmac henv)

theorem Passes.justified {s : Waiting J σ} {o : Waited J σ}
    (h : Passes w ip4addr start timeout s (.inr o)) (hlink : OnLink w ip4addr configs i link)
    (hs : (link s.env).Inv configs) : Justified w ip4addr start timeout configs o := by
  cases h with
  | answered mac hok =>
    obtain hown | ⟨_, hresolved⟩ := ArpLink.etherAddress_ok w.config (w.arp s.env) ip4addr
      (w.buffer s.env) (w.room s.env) mac hok
    · exact .inl hown
    · rw [hlink.arp] at hresolved
      exact .inr (hs.truthful i ip4addr mac hresolved)
  | notSupported hno => exact etherAddress_notSupported ip4addr w.config _ _ _ hno
  | aborted hjobs => exact hjobs
  | canceled hrunning => exact hrunning
  | timedOut hrunning htime => exact ⟨hrunning, htime⟩

/-- Every pass of `d` ticks brings the timeout nearer by as much. -/
theorem loop_ends (hlink : OnLink w ip4addr configs i link)
    (hmac : ∀ j, (configs j).macAddr.length = 6) (d : ℤ)
    (hclock : ∀ s : Waiting J σ, w.now s.env + d ≤ w.now (w.afterRound ip4addr s)) (n : ℕ)
    (s : Waiting J σ) (hpos : 0 < n) (hs : (link s.env).Inv configs)
    (hn : start + timeout ≤ w.now s.env + n * d) :
    ∃ o, loop w ip4addr start timeout n s = some o ∧
      Justified w ip4addr start timeout configs o := by
  induction n generalizing s with
  | zero => exact absurd hpos (Nat.lt_irrefl 0)
  | succ n ih =>
    obtain ⟨r, hr, hpasses⟩ := pass_passes w ip4addr start timeout s
    rw [loop, hr]
    cases r with
    | inr o => exact ⟨o, rfl, hpasses.justified hlink hs⟩
    | inl s' =>
      cases hpasses with
      | waits _ htime =>
        have hstep := hclock s
        have hlater : start + timeout ≤ w.now (w.afterRound ip4addr s) + n * d := by
          rw [Int.natCast_add, Int.natCast_one, Int.add_mul, Int.one_mul] at hn
          omega
        have hmore : 0 < n := by
          apply Nat.pos_of_ne_zero
          rintro rfl
          rw [Int.natCast_zero, Int.zero_mul] at hlater
          omega
        exact ih ⟨w.jobsLeft ip4addr s, w.afterRound ip4addr s⟩ hmore
          (hlink.afterAll hmac s.jobs _ ((hlink.asked s.env).inv hmac hs)) hlater

/-- The wait ends: `n` passes are enough when they cover the timeout. It gives no hardware address
that no device of that protocol address has, and no error without its reason. -/
theorem ether_address_waits (hlink : OnLink w ip4addr configs i link)
    (hmac : ∀ j, (configs j).macAddr.length = 6) (jobs : List J) (env : σ)
    (hreached : LinkRun configs ArpLink.initial (link env)) (d : ℤ)
    (hclock : ∀ s : Waiting J σ, w.now s.env + d ≤ w.now (w.afterRound ip4addr s)) (n : ℕ)
    (hpos : 0 < n) (hn : timeout ≤ n * d) :
    ∃ o, etherAddressFor w ip4addr timeout n jobs env = some o ∧
      Justified w ip4addr (w.now env) timeout configs o := by
  apply loop_ends hlink hmac d hclock n ⟨jobs, env⟩ hpos
  · exact hreached.inv hmac (ArpLink.inv_initial configs)
  · dsimp only
    omega

end Loop

/-! ## Two devices -/

section Pair

/-- The events that are enabled when their turn comes. -/
def does (es : List (LinkEvent Bool)) (s : ArpLink Bool) : ArpLink Bool :=
  es.foldl (fun s e => (s.step ArpLink.pairConfig e).getD s) s

theorem linkRun_does (es : List (LinkEvent Bool)) (s : ArpLink Bool) :
    LinkRun ArpLink.pairConfig s (does es s) := by
  induction es generalizing s with
  | nil => exact ⟨[], [], rfl, rfl⟩
  | cons e es ih =>
    have hcons : does (e :: es) s = does es ((s.step ArpLink.pairConfig e).getD s) := rfl
    rw [hcons]
    cases hstep : s.step ArpLink.pairConfig e with
    | none => exact ih s
    | some s' =>
      obtain ⟨es', tr, htr, hfinal⟩ := ih s'
      refine ⟨e :: es', _, trace_step hstep htr, ?_⟩
      rw [final_cons, Option.getD_some, hfinal]

/-- 10.0.0.1 asks for 10.0.0.2; one job hears the reply, and the other device answers while another
runs. Asking and every job take 10 ticks. -/
def pairWorld : World Bool (ArpLink Bool × ℤ) where
  config := ArpLink.pairConfig false
  arp := fun env => env.1.arp false
  buffer := fun _ => some ArpLink.blankMbuf
  room := fun _ => true
  asked := fun env _ => (does [.ask false 0x0200000A (some ArpLink.blankMbuf) true,
    .emplace false 0x0200000A] env.1, env.2 + 10)
  process := fun hears env => (.busy, does [if hears then .poll false (ArpLink.pollOf ArpLink.pairReply)
    else .poll true (ArpLink.pollOf ArpLink.pairRequest)] env.1, env.2 + 10)
  running := fun _ => true
  now := Prod.snd

theorem onLink_pairWorld : OnLink pairWorld 0x0200000A ArpLink.pairConfig false Prod.fst where
  config := rfl
  arp := fun _ => rfl
  asked := fun env => linkRun_does _ env.1
  process := fun _ env => linkRun_does _ env.1

theorem now_afterAll_pairWorld (jobs : List Bool) (env : ArpLink Bool × ℤ) :
    env.2 ≤ (afterAll pairWorld.process jobs env).2 := by
  induction jobs generalizing env with
  | nil => exact Int.le_refl _
  | cons j jobs ih =>
    have hjob : (pairWorld.process j env).2.2 = env.2 + 10 := rfl
    have hrest := ih (pairWorld.process j env).2
    rw [hjob] at hrest
    exact Int.le_trans (by omega) hrest

theorem ether_address_waits_pair :
    ∃ o, etherAddressFor pairWorld 0x0200000A 50 5 [false, true] (ArpLink.initial, 0) = some o ∧
      Justified pairWorld 0x0200000A 0 50 ArpLink.pairConfig o ∧ o.result = .ok [2, 0, 0, 0, 0, 2] := by
  have hresult : (etherAddressFor pairWorld 0x0200000A 50 5 [false, true] (ArpLink.initial, 0)).map
      Waited.result = some (.ok [2, 0, 0, 0, 0, 2]) := by
    decide +kernel
  have hclock : ∀ s : Waiting Bool (ArpLink Bool × ℤ),
      pairWorld.now s.env + 10 ≤ pairWorld.now (pairWorld.afterRound 0x0200000A s) := by
    intro s
    exact now_afterAll_pairWorld s.jobs (pairWorld.asked s.env (pairWorld.ask 0x0200000A s.env))
  have htime : (50 : ℤ) ≤ (5 : ℕ) * 10 := by decide
  obtain ⟨o, ho, hjustified⟩ := ether_address_waits onLink_pairWorld ArpLink.pair_macs [false, true]
    (ArpLink.initial, 0) ⟨[], [], rfl, rfl⟩ 10 hclock 5 (by decide) htime
  rw [ho] at hresult
  exact ⟨o, ho, hjustified, Option.some.inj hresult⟩

end Pair

end DpdkTools.EtherWait
