import DpdkTools.Config.Construct
import DpdkTools.Config.Sockets
import DpdkTools.Lib.Launches

/-! Which core runs which job, in `run` (`sockperf_cli/sockperf.cpp`).

The receive jobs take the first cores of the socket, and stay there. The latency test and then the
senders take the cores behind them, the last sender the main core itself where it belongs to the socket:
`socket_configuration` has put it last. The results of `rte_eal_remote_launch` are not looked at. -/
namespace DpdkTools.Sockperf
open Config Launches Reflect Runs
set_option autoImplicit false

inductive SockperfJob where
  | rx (ix : ℕ)
  | latency
  | send (ix : ℕ)
  deriving Repr, DecidableEq

abbrev LaunchStep := Step SockperfJob Core

/-! ## The plan -/

section Plan
variable (cores : List Core) (mainCore : Core) (rxJobs txJobs : ℕ)

/-- One job for each core from `first` on; `none` when the iterator runs past the end. -/
def launchFrom (first : ℕ) (jobs : List SockperfJob) : Option (List LaunchStep) :=
  if first + jobs.length ≤ cores.length then
    some ((jobs.zip ((cores.drop first).take jobs.length)).map fun j => .launch j.1 j.2)
  else none

def mainIsLast : Bool := cores.getLast? = some mainCore

def latencyTest : Option (List LaunchStep) :=
  if mainIsLast cores mainCore then some [.runHere .latency]
  else cores[rxJobs]?.map fun core => [.launch .latency core, .wait core]

/-- The length of the span `send_cores`; `n_send_cores - 1` must not wrap. -/
def sendCores : Option ℕ :=
  if mainIsLast cores mainCore then (if txJobs = 0 then none else some (txJobs - 1)) else some txJobs

def throughputTest : Option (List LaunchStep) :=
  (sendCores cores mainCore txJobs).bind fun n =>
    (launchFrom cores rxJobs ((List.range n).map .send)).map fun launched =>
      launched ++ (if n < txJobs then [.runHere (.send n)] else []) ++
        ((cores.drop rxJobs).take n).map .wait

/-- `none` where `run` leaves the span of its cores. -/
def launchPlan (latency throughput : Bool) : Option (List LaunchStep) :=
  (launchFrom cores 0 ((List.range rxJobs).map .rx)).bind fun receivers =>
    if min (cores.length - rxJobs) txJobs < txJobs then some receivers
    else
      (if latency then latencyTest cores mainCore rxJobs else some []).bind fun latencyTest =>
        (if throughput then throughputTest cores mainCore rxJobs txJobs else some []).map fun senders =>
          receivers ++ latencyTest ++ senders ++ (cores.take rxJobs).map .wait

end Plan

/-- The number of `rx_jobs_`. -/
def rxJobsOf (d : Constructed) : ℕ := (d.config.rxNbQueues - d.config.rxFlowQueues).toNat

def plannedJobs (rxJobs txJobs : ℕ) (latency throughput : Bool) : List SockperfJob :=
  (List.range rxJobs).map .rx ++ (if latency then [.latency] else []) ++
    (if throughput then (List.range txJobs).map .send else [])

/-! ## The plan is safe -/

/-- What `run` knows of the cores of a socket. -/
structure SocketCores (lcores : List Core) (mainCore : Core) (cores : List Core) : Prop where
  nodup : cores.Nodup
  enabled : ∀ core ∈ cores, core ∈ lcores
  mainLast : mainCore ∈ cores → cores.getLast? = some mainCore

section Safety
variable {lcores cores : List Core} {mainCore : Core} {rxJobs txJobs : ℕ}
  (h : SocketCores lcores mainCore cores)
include h

/-- In front of its end the span has no main core. -/
theorem SocketCores.ne_main (core : Core) (i : ℕ) (hi : cores[i]? = some core)
    (hfit : i + 1 < cores.length ∨ mainIsLast cores mainCore = false) : core ≠ mainCore := by
  rintro rfl
  have hlast := h.mainLast (List.mem_of_getElem? hi)
  obtain hlt | hother := hfit
  · have hne : cores ≠ [] := List.ne_nil_of_mem (List.mem_of_getElem? hi)
    rw [List.getLast?_eq_getElem?] at hlast
    have heq : i = cores.length - 1 := by
      obtain ⟨hi', hget⟩ := List.getElem?_eq_some_iff.mp hi
      obtain ⟨hj', hget'⟩ := List.getElem?_eq_some_iff.mp hlast
      exact h.nodup.getElem_inj_iff.mp (hget.trans hget'.symm)
    omega
  · rw [mainIsLast, hlast] at hother
    simp at hother

/-- A core from `first` on, in front of the end of the span or of one without the main core. -/
theorem SocketCores.free (first n : ℕ) (hfit : first + n ≤ cores.length)
    (hmain : first + n < cores.length ∨ mainIsLast cores mainCore = false) :
    ∀ core ∈ (cores.drop first).take n,
      core ∈ lcores ∧ core ≠ mainCore ∧ core ∉ (cores.take first).toFinset := by
  intro core hcore
  obtain ⟨i, hi, hget⟩ := List.getElem_of_mem hcore
  rw [List.length_take, List.length_drop] at hi
  rw [List.getElem_take, List.getElem_drop] at hget
  have hin : cores[first + i]? = some core := List.getElem?_eq_some_iff.mpr ⟨by omega, hget⟩
  refine ⟨h.enabled core (List.mem_of_getElem? hin), h.ne_main core _ hin ?_, ?_⟩
  · exact hmain.imp (fun hlt => by omega) id
  · intro htaken
    have hapart := (List.nodup_append.mp ((List.take_append_drop first cores).symm ▸ h.nodup)).2.2
    exact hapart core (List.mem_toFinset.mp htaken) core (List.mem_of_mem_take hcore) rfl

/-- Jobs on the cores behind those that are taken. -/
theorem SocketCores.safe_launchFrom (first : ℕ) (jobs : List SockperfJob)
    (hfit : first + jobs.length ≤ cores.length)
    (hmain : first + jobs.length < cores.length ∨ mainIsLast cores mainCore = false) :
    ∃ launched, launchFrom cores first jobs = some launched ∧
      Safe mainCore lcores (cores.take first).toFinset launched ∧
      busyAfter (cores.take first).toFinset launched = (cores.take (first + jobs.length)).toFinset ∧
      (starts mainCore launched).map Prod.fst = jobs := by
  have hlen : ((cores.drop first).take jobs.length).length = jobs.length := by
    rw [List.length_take, List.length_drop]
    omega
  have hsnd : (jobs.zip ((cores.drop first).take jobs.length)).map Prod.snd =
      (cores.drop first).take jobs.length := List.map_snd_zip (by omega)
  refine ⟨_, if_pos hfit, ?_, ?_, ?_⟩
  · apply safe_launches
    · rw [hsnd]
      exact (h.nodup.sublist (List.drop_sublist _ _)).sublist (List.take_sublist _ _)
    · intro j hj
      exact h.free first jobs.length hfit hmain j.2 (List.of_mem_zip hj).2
  · rw [busyAfter_launches, hsnd, List.take_add, List.toFinset_append]
  · rw [starts_launches, List.map_fst_zip (by omega)]

theorem SocketCores.safe_latencyTest (hfit : rxJobs < cores.length) :
    ∃ test, latencyTest cores mainCore rxJobs = some test ∧
      Safe mainCore lcores (cores.take rxJobs).toFinset test ∧
      busyAfter (cores.take rxJobs).toFinset test = (cores.take rxJobs).toFinset ∧
      (starts mainCore test).map Prod.fst = [.latency] := by
  unfold latencyTest
  split_ifs with hmain
  · exact ⟨_, rfl, trivial, rfl, rfl⟩
  · have hget : cores[rxJobs]? = some cores[rxJobs] := List.getElem?_eq_getElem hfit
    have hin : cores[rxJobs] ∈ (cores.drop rxJobs).take 1 := by
      rw [List.mem_take_iff_getElem]
      exact ⟨0, by rw [List.length_drop]; omega, by simp⟩
    obtain ⟨hworker, hne, hout⟩ :=
      h.free rxJobs 1 (by omega) (Or.inr (Bool.eq_false_iff.mpr hmain)) _ hin
    refine ⟨_, congrArg (Option.map _) hget, ⟨⟨hworker, hne, hout⟩, trivial⟩, ?_, rfl⟩
    exact Finset.erase_insert hout

theorem SocketCores.safe_throughputTest (hfit : rxJobs + txJobs ≤ cores.length) (hjobs : txJobs ≠ 0) :
    ∃ test, throughputTest cores mainCore rxJobs txJobs = some test ∧
      Safe mainCore lcores (cores.take rxJobs).toFinset test ∧
      (starts mainCore test).map Prod.fst = (List.range txJobs).map .send := by
  obtain ⟨n, hn, hle, hmain, hlast⟩ : ∃ n, sendCores cores mainCore txJobs = some n ∧ n ≤ txJobs ∧
      (rxJobs + n < cores.length ∨ mainIsLast cores mainCore = false) ∧
      (n < txJobs → n + 1 = txJobs) := by
    unfold sendCores
    split_ifs with hmain
    · exact ⟨txJobs - 1, rfl, by omega, Or.inl (by omega), fun _ => by omega⟩
    · exact ⟨txJobs, rfl, Nat.le_refl _, Or.inr (Bool.eq_false_iff.mpr hmain),
        fun hlt => absurd hlt (Nat.lt_irrefl _)⟩
  have hlen : ((List.range n).map SockperfJob.send).length = n := by
    rw [List.length_map, List.length_range]
  obtain ⟨launched, hlaunched, hsafe, -, hstarts⟩ :=
    h.safe_launchFrom rxJobs ((List.range n).map .send) (by omega) (by rwa [hlen])
  unfold throughputTest
  rw [hn, Option.bind_some, hlaunched, Option.map_some]
  refine ⟨_, rfl, ?_, ?_⟩
  · rw [safe_append, safe_append]
    refine ⟨⟨hsafe, ?_⟩, safe_waits ..⟩
    split_ifs <;> trivial
  · rw [starts_append, starts_append, starts_waits, List.append_nil, List.map_append, hstarts]
    split_ifs with hlt
    · rw [← hlast hlt, List.range_succ, List.map_append]
      rfl
    · rw [show n = txJobs by omega]
      exact List.append_nil _

/-- There is a core for each job, and none is started where a job may still be running. -/
theorem SocketCores.safe_launchPlan (hfit : rxJobs + txJobs ≤ cores.length) (hjobs : txJobs ≠ 0)
    (latency throughput : Bool) :
    ∃ plan, launchPlan cores mainCore rxJobs txJobs latency throughput = some plan ∧
      Safe mainCore lcores ∅ plan ∧
      (starts mainCore plan).map Prod.fst = plannedJobs rxJobs txJobs latency throughput := by
  have hlen : ((List.range rxJobs).map SockperfJob.rx).length = rxJobs := by
    rw [List.length_map, List.length_range]
  obtain ⟨receivers, hreceivers, hsafe, hbusy, hstarts⟩ :=
    h.safe_launchFrom 0 ((List.range rxJobs).map .rx) (by omega) (Or.inl (by omega))
  obtain ⟨latencySteps, hlatency, hlatencySafe, hlatencyBusy, hlatencyStarts⟩ :
      ∃ test, (if latency then latencyTest cores mainCore rxJobs else some []) = some test ∧
        Safe mainCore lcores (cores.take rxJobs).toFinset test ∧
        busyAfter (cores.take rxJobs).toFinset test = (cores.take rxJobs).toFinset ∧
        (starts mainCore test).map Prod.fst = if latency then [.latency] else [] := by
    cases latency with
    | false => exact ⟨[], rfl, trivial, rfl, rfl⟩
    | true => exact h.safe_latencyTest (by omega)
  obtain ⟨senders, hsenders, hsendersSafe, hsendersStarts⟩ :
      ∃ test, (if throughput then throughputTest cores mainCore rxJobs txJobs else some []) = some test ∧
        Safe mainCore lcores (cores.take rxJobs).toFinset test ∧
        (starts mainCore test).map Prod.fst =
          if throughput then (List.range txJobs).map .send else [] := by
    cases throughput with
    | false => exact ⟨[], rfl, trivial, rfl⟩
    | true => exact h.safe_throughputTest hfit hjobs
  rw [hlen, Nat.zero_add] at hbusy
  unfold launchPlan
  rw [hreceivers, Option.bind_some, if_neg (by omega), hlatency, Option.bind_some, hsenders,
    Option.map_some]
  refine ⟨_, rfl, ?_, ?_⟩
  · rw [safe_append, safe_append, safe_append, busyAfter_append]
    have hnone : (cores.take 0).toFinset = ∅ := rfl
    rw [← hnone, hbusy, hlatencyBusy]
    exact ⟨⟨⟨hsafe, hlatencySafe⟩, hsendersSafe⟩, safe_waits ..⟩
  · rw [starts_append, starts_append, starts_append, starts_waits, List.append_nil, List.map_append,
      List.map_append, hstarts, hlatencyStarts, hsendersStarts]
    rfl

end Safety

/-! ## The cores of the socket that is chosen -/

theorem chosen_mem (r : Sockets) (socketId : BitVec 32) (s : Span) (hs : r.chosen socketId = some s) :
    s ∈ r.sockets := by
  unfold Sockets.chosen at hs
  split at hs
  · next t hfind =>
    obtain rfl := Option.some.inj hs
    exact List.mem_of_find?_eq_some hfind
  · exact List.mem_of_mem_head? hs

theorem getLastD_mem (cores : List Core) (core : Core) (h : core ∈ cores) :
    cores.getLastD core ∈ cores := by
  rw [List.getLastD_eq_getLast?]
  cases hlast : cores.getLast? with
  | none => exact h
  | some last => exact List.mem_of_getLast? hlast

theorem socketCores (socketOf : Core → BitVec 32) (lcores : List Core) (mainCore : Core)
    (hnodup : lcores.Nodup) (hmain : mainCore ∈ lcores) (r : Sockets)
    (hr : socketConfiguration socketOf lcores mainCore = some r) (s : Span) (hs : s ∈ r.sockets) :
    SocketCores lcores mainCore (r.coresOf s) := by
  rw [socketConfiguration_groups] at hr
  obtain rfl := Option.some.inj hr
  obtain ⟨g, hg, -, hcores⟩ := spansFrom_cores _ [] s hs
  obtain ⟨g', hg', rfl⟩ := List.mem_map.mp hg
  obtain ⟨k, -, rfl⟩ := List.mem_map.mp hg'
  have hgroup : (Grouping.group socketOf lcores k).Nodup := hnodup.filter _
  have hsub : ∀ core ∈ Grouping.group socketOf lcores k, core ∈ lcores :=
    fun core hcore => (List.mem_filter.mp hcore).1
  rw [List.nil_append] at hcores
  unfold Sockets.coresOf
  dsimp only
  rw [hcores, arranged]
  dsimp only
  split_ifs with hk
  · have hin : mainCore ∈ Grouping.group socketOf lcores k :=
      List.mem_filter.mpr ⟨hmain, by simpa using hk.symm⟩
    refine ⟨?_, ?_, fun _ => getLast?_withMainLast mainCore _ hgroup hin⟩
    · rw [withMainLast_eq mainCore _ hgroup hin]
      exact hgroup.map (Equiv.injective _)
    · intro core hcore
      rw [withMainLast_eq mainCore _ hgroup hin] at hcore
      obtain ⟨core', hcore', rfl⟩ := List.mem_map.mp hcore
      rw [Equiv.swap_apply_def]
      split_ifs
      · exact hsub _ (getLastD_mem _ _ hin)
      · exact hmain
      · exact hsub core' hcore'
  · refine ⟨hgroup, hsub, fun hin => ?_⟩
    have heq := (List.mem_filter.mp hin).2
    exact absurd (of_decide_eq_true heq).symm hk

/-! ## The numbers of jobs -/

theorem fitToCores_fits (dev fitted : Config.Device) (cores : ℕ) (h : dev.fitToCores cores = some fitted) :
    fitted.rxNbQueues.toNat + fitted.txNbQueues.toNat ≤ cores := by
  unfold Config.Device.fitToCores at h
  dsimp only at h
  split_ifs at h with hfew hless
  · obtain rfl := Option.some.inj h
    have hn : cores - dev.rxNbQueues.toNat < 2 ^ 16 := Nat.lt_trans hless dev.txNbQueues.isLt
    have htx : (dev.setTxNbQueues (BitVec.ofNat 16 (cores - dev.rxNbQueues.toNat))).txNbQueues =
        BitVec.ofNat 16 (cores - dev.rxNbQueues.toNat) := dev.val_set_self _ _
    have hrx : (dev.setTxNbQueues (BitVec.ofNat 16 (cores - dev.rxNbQueues.toNat))).rxNbQueues =
        dev.rxNbQueues := dev.val_set_ne _ _ _ (by simp)
    rw [htx, hrx, BitVec.toNat_ofNat, Nat.mod_eq_of_lt hn]
    omega
  · obtain rfl := Option.some.inj h
    omega

theorem applyWorkaround_val (dev : Config.Device) (m : Member) (h : m ≠ .info .rxOffloadCapa) :
    dev.applyWorkaround.val m = dev.val m :=
  Config.Device.val_ite _ _ _ _ (dev.val_set_ne _ _ _ h)

theorem fixFlowQueues_le (dev : Config.Device) :
    dev.fixFlowQueues.rxFlowQueues.toNat ≤ dev.fixFlowQueues.rxNbQueues.toNat := by
  unfold Config.Device.fixFlowQueues
  split_ifs with h
  · have hset : (dev.set .rxFlowQueues dev.rxNbQueues).rxFlowQueues = dev.rxNbQueues :=
      dev.val_set_self _ _
    have hkept : (dev.set .rxFlowQueues dev.rxNbQueues).rxNbQueues = dev.rxNbQueues :=
      dev.val_set_ne _ _ _ (by simp)
    rw [hset, hkept]
  · by_cases hzero : dev.rxFlowQueues = 0
    · rw [hzero]
      exact Nat.zero_le _
    · exact BitVec.not_lt.mp fun hlt => h ⟨hzero, hlt⟩

theorem ringSizes_val (dev : Config.Device) (sizes : BitVec 16 × BitVec 16) (m : Member)
    (hrx : m ≠ .info (.defaultRxportconf .ringSize)) (htx : m ≠ .info (.defaultTxportconf .ringSize)) :
    (dev.fixRingSizes.setRingSizes sizes).val m = dev.val m := by
  have hfix : dev.fixRingSizes.val m = dev.val m :=
    (Config.Device.val_ite _ _ _ _ (Config.Device.val_set_ne _ _ _ _ htx)).trans
      (Config.Device.val_ite _ _ _ _ (Config.Device.val_set_ne _ _ _ _ hrx))
  exact (Config.Device.val_set_ne _ _ _ _ htx).trans ((Config.Device.val_set_ne _ _ _ _ hrx).trans hfix)

/-- A job for each receive queue that no flow feeds. -/
theorem rxJobsOf_le (host : Host) (eth : EthDev) (config : Config.Device) (d : Constructed)
    (h : makeDevice host eth config = .ok d) : rxJobsOf d ≤ config.rxNbQueues.toNat := by
  unfold makeDevice at h
  simp only [bind_eq_ok] at h
  obtain ⟨configure, hconfigure, -, -, -, -, sizes, -, -, -, -, -, -, -, h⟩ := h
  cases h
  have hconstruct := mapError_eq_ok _ _ _ hconfigure
  have hle : configure.config.rxFlowQueues.toNat ≤ configure.config.rxNbQueues.toNat := by
    simp only [constructDevice] at hconstruct
    split at hconstruct
    · split at hconstruct
      all_goals
        cases hconstruct
        exact fixFlowQueues_le _
    · cases hconstruct
  have hnb : configure.config.rxNbQueues = config.rxNbQueues :=
    (constructDevice_val host config configure hconstruct (.info (.defaultRxportconf .nbQueues)) rfl).trans
      (Config.Device.fixClock_val _ _ _ (by simp) (by simp))
  have hkept (m : Member) (hrx : m ≠ .info (.defaultRxportconf .ringSize))
      (htx : m ≠ .info (.defaultTxportconf .ringSize)) (hsvc : m ≠ .svcTxN) :
      ((configure.config.fixRingSizes.setRingSizes sizes).clampSvcTxN
        (configure.config.txJobQueues config.directTxQueues).length).val m = configure.config.val m :=
    (Config.Device.clampSvcTxN_val _ _ _ hsvc).trans (ringSizes_val _ _ _ hrx htx)
  have hrx := (hkept (.info (.defaultRxportconf .nbQueues)) (by simp) (by simp) (by simp)).trans hnb
  have hflow := hkept .rxFlowQueues (by simp) (by simp) (by simp)
  unfold rxJobsOf Config.Device.rxNbQueues Config.Device.rxFlowQueues
  dsimp only
  rw [hrx, hflow]
  rw [hnb] at hle
  exact (BitVec.toNat_sub_of_le (BitVec.le_def.mpr hle)).trans_le (Nat.sub_le _ _)

/-! ## The jobs of a run -/

/-- Where `run` gets as far as to start jobs, each job it means to run is started once, in order, on an
enabled core that has no other job and is not the main one, except for the one that the main core runs
itself; no iterator leaves the cores of the socket, and the main core waits for a running job at most. -/
theorem jobs_on_cores (socketOf : Core → BitVec 32) (lcores : List Core) (mainCore : Core)
    (hnodup : lcores.Nodup) (hmain : mainCore ∈ lcores) (r : Sockets)
    (hr : socketConfiguration socketOf lcores mainCore = some r) (config : Config.Device) (s : Span)
    (hs : r.chosen config.socketId = some s) (txq : BitVec 16) (fitted : Config.Device)
    (hfitted : ((config.adjustToSocket ⟨s.socketId, r.coresOf s⟩).requestQueues txq).fitToCores
      (r.coresOf s).length = some fitted)
    (host : Host) (eth : EthDev) (d : Constructed)
    (hd : makeDevice host eth fitted.applyWorkaround = .ok d) (hjobs : d.txJobs ≠ [])
    (latency throughput : Bool) :
    ∃ plan, launchPlan (r.coresOf s) mainCore (rxJobsOf d) d.txJobs.length latency throughput =
        some plan ∧
      (starts mainCore plan).map Prod.fst =
        plannedJobs (rxJobsOf d) d.txJobs.length latency throughput ∧
      ∀ es tr, trace (Workers.step mainCore lcores) (.start plan) es = some tr →
        ∀ t ∈ tr, Workers.OnPlan mainCore lcores plan t.post ∧
          Workers.Enabled mainCore lcores t.post := by
  have hcores := socketCores socketOf lcores mainCore hnodup hmain r hr s (chosen_mem r _ s hs)
  have hfits := fitToCores_fits _ _ _ hfitted
  have hrx := rxJobsOf_le host eth _ d hd
  have hrxNb : fitted.applyWorkaround.rxNbQueues = fitted.rxNbQueues :=
    applyWorkaround_val fitted _ (by simp)
  have htxNb : fitted.applyWorkaround.txNbQueues = fitted.txNbQueues :=
    applyWorkaround_val fitted _ (by simp)
  have htx : d.txJobs.length ≤ fitted.txNbQueues.toNat := by
    rw [(makeDevice_ok host eth _ d hd).txJobs, length_txJobQueues_direct, htxNb]
    exact Nat.min_le_right _ _
  rw [hrxNb] at hrx
  have hfit : rxJobsOf d + d.txJobs.length ≤ (r.coresOf s).length := by omega
  have hsome : d.txJobs.length ≠ 0 := fun h => hjobs (List.length_eq_zero_iff.mp h)
  obtain ⟨plan, hplan, hsafe, hstarts⟩ := hcores.safe_launchPlan hfit hsome latency throughput
  refine ⟨plan, hplan, hstarts, fun es tr htr t ht => ⟨?_, ?_⟩⟩
  · exact Workers.run_onPlan mainCore lcores plan hsafe es tr htr t ht
  · exact Workers.step_enabled mainCore lcores t.post

/-- Six lcores on two sockets: lcore 4 receives, and lcore 2 and the main core 0 send. -/
theorem jobs_on_cores_six :
    ∃ r s d, socketConfiguration (fun c => c % 2) [0, 1, 2, 3, 4, 5] 0 = some r ∧
      r.chosen 0 = some s ∧
      ∃ plan, launchPlan (r.coresOf s) 0 (rxJobsOf d) d.txJobs.length true true = some plan ∧
        (starts 0 plan).map Prod.fst = plannedJobs (rxJobsOf d) d.txJobs.length true true ∧
        ∀ es tr, trace (Workers.step 0 [0, 1, 2, 3, 4, 5]) (.start plan) es = some tr →
          ∀ t ∈ tr, Workers.OnPlan 0 [0, 1, 2, 3, 4, 5] plan t.post ∧
            Workers.Enabled 0 [0, 1, 2, 3, 4, 5] t.post :=
  ⟨_, _, _, rfl, rfl, jobs_on_cores (fun c => c % 2) [0, 1, 2, 3, 4, 5] 0 (by decide) (by decide) _ rfl
    (bareDevice.setRxNbQueues 1#16) _ rfl 2#16 _ rfl igcHost (willingEth none) _ rfl (by decide) true
    true⟩

example : launchPlan [4, 2, 0] 0 1 2 true true =
    some [.launch (.rx 0) 4, .runHere .latency, .launch (.send 0) 2, .runHere (.send 1), .wait 2, .wait 4] := by
  decide

/-! ## The queues of the NIC -/

/-- The receive queue that a job polls. -/
def SockperfJob.rxQueue : SockperfJob → Option ℕ
  | .rx ix => some ix
  | .latency => none
  | .send _ => none

/-- The transmit queue that a job gives packets to, past the rings of the device. -/
def SockperfJob.txQueue : SockperfJob → Option ℕ
  | .rx _ => none
  | .latency => some 0
  | .send ix => some ix

/-- Two jobs on one queue; its functions may not be called by two threads at a time. -/
def SharedQueue (a b : SockperfJob) : Prop :=
  (a.rxQueue ≠ none ∧ a.rxQueue = b.rxQueue) ∨ (a.txQueue ≠ none ∧ a.txQueue = b.txQueue)

theorem sharedQueue_symm (a b : SockperfJob) (h : SharedQueue a b) : SharedQueue b a := by
  obtain ⟨hsome, heq⟩ | ⟨hsome, heq⟩ := h
  · exact Or.inl ⟨heq ▸ hsome, heq.symm⟩
  · exact Or.inr ⟨heq ▸ hsome, heq.symm⟩

theorem sharedQueue_rx (i k : ℕ) (h : SharedQueue (.rx i) (.rx k)) : i = k := by
  obtain ⟨-, heq⟩ | ⟨hsome, -⟩ := h
  · exact Option.some.inj heq
  · exact absurd rfl hsome

theorem sharedQueue_send (i k : ℕ) (h : SharedQueue (.send i) (.send k)) : i = k := by
  obtain ⟨hsome, -⟩ | ⟨-, heq⟩ := h
  · exact absurd rfl hsome
  · exact Option.some.inj heq

theorem sender_not_rx (a : SockperfJob) (i : ℕ) (ha : a.rxQueue = none) : ¬ SharedQueue a (.rx i) := by
  rintro (⟨hsome, -⟩ | ⟨hsome, heq⟩)
  · exact hsome ha
  · exact hsome heq

theorem pairwise_unshared (job : ℕ → SockperfJob) (hjob : ∀ i k, SharedQueue (job i) (job k) → i = k)
    (n : ℕ) : ((List.range n).map job).Pairwise fun a b => ¬ SharedQueue b a := by
  rw [List.pairwise_map]
  exact List.nodup_range.imp fun hne hshared => hne (hjob _ _ hshared).symm

def Receiving (busy : List (SockperfJob × Core)) : Prop := ∀ b ∈ busy, ∃ ix, b.1 = .rx ix

theorem Receiving.unshared {busy : List (SockperfJob × Core)} (h : Receiving busy) (a : SockperfJob)
    (ha : a.rxQueue = none) : ∀ b ∈ busy, ¬ SharedQueue a b.1 := by
  intro b hb
  obtain ⟨ix, hix⟩ := h b hb
  rw [hix]
  exact sender_not_rx a ix ha

section Unshared
variable {cores : List Core} {mainCore : Core} {rxJobs txJobs : ℕ} {plan : List LaunchStep}

theorem launchFrom_eq (first : ℕ) (jobs : List SockperfJob)
    (h : launchFrom cores first jobs = some plan) :
    ∃ ls : List (SockperfJob × Core), plan = ls.map (fun j => .launch j.1 j.2) ∧ ls.map Prod.fst = jobs := by
  unfold launchFrom at h
  split_ifs at h with hfit
  obtain rfl := Option.some.inj h
  refine ⟨_, rfl, List.map_fst_zip ?_⟩
  rw [List.length_take, List.length_drop]
  omega

theorem apart_latencyTest (busy : List (SockperfJob × Core)) (hbusy : Receiving busy)
    (h : latencyTest cores mainCore rxJobs = some plan) :
    Apart SharedQueue busy plan ∧ Receiving (occupied busy plan) := by
  have hfree := hbusy.unshared .latency rfl
  unfold latencyTest at h
  split_ifs at h
  · obtain rfl := Option.some.inj h
    exact ⟨⟨hfree, trivial⟩, hbusy⟩
  · obtain ⟨core, -, rfl⟩ := Option.map_eq_some_iff.mp h
    refine ⟨⟨hfree, trivial⟩, ?_⟩
    intro b hb
    obtain ⟨hin, hcore⟩ := List.mem_filter.mp hb
    obtain rfl | hold := List.mem_cons.mp hin
    · exact absurd rfl (of_decide_eq_true hcore)
    · exact hbusy b hold

theorem apart_throughputTest (busy : List (SockperfJob × Core)) (hbusy : Receiving busy)
    (h : throughputTest cores mainCore rxJobs txJobs = some plan) : Apart SharedQueue busy plan := by
  unfold throughputTest at h
  obtain ⟨n, -, h⟩ := Option.bind_eq_some_iff.mp h
  obtain ⟨launched, hlaunched, rfl⟩ := Option.map_eq_some_iff.mp h
  obtain ⟨ls, rfl, hls⟩ := launchFrom_eq rxJobs _ hlaunched
  have hsend : ∀ j ∈ ls, ∃ i, i < n ∧ j.1 = .send i := by
    intro j hj
    have hmem := List.mem_map_of_mem (f := Prod.fst) hj
    rw [hls] at hmem
    obtain ⟨i, hi, heq⟩ := List.mem_map.mp hmem
    exact ⟨i, List.mem_range.mp hi, heq.symm⟩
  rw [apart_append, apart_append]
  refine ⟨⟨?_, ?_⟩, apart_waits ..⟩
  · apply apart_launches
    · intro j hj
      obtain ⟨i, -, hi⟩ := hsend j hj
      exact hbusy.unshared j.1 (by rw [hi]; rfl)
    · rw [hls]
      exact pairwise_unshared .send sharedQueue_send n
  · split_ifs
    · refine ⟨?_, trivial⟩
      rw [occupied_launches]
      intro b hb
      obtain hsent | hold := List.mem_append.mp hb
      · obtain ⟨i, hlt, hi⟩ := hsend b (List.mem_reverse.mp hsent)
        rw [hi]
        exact fun hshared => hlt.ne' (sharedQueue_send n i hshared)
      · exact hbusy.unshared (.send n) rfl b hold
    · trivial

theorem apart_launchPlan (latency throughput : Bool)
    (h : launchPlan cores mainCore rxJobs txJobs latency throughput = some plan) :
    Apart SharedQueue [] plan := by
  unfold launchPlan at h
  obtain ⟨receivers, hreceivers, h⟩ := Option.bind_eq_some_iff.mp h
  obtain ⟨ls, rfl, hls⟩ := launchFrom_eq 0 _ hreceivers
  have hfirst : Apart SharedQueue [] (ls.map fun j => Step.launch j.1 j.2) := by
    apply apart_launches _ ls [] (fun _ _ _ hb => absurd hb List.not_mem_nil)
    rw [hls]
    exact pairwise_unshared .rx sharedQueue_rx rxJobs
  have hbusy : Receiving (occupied [] (ls.map fun j => Step.launch j.1 j.2)) := by
    rw [occupied_launches, List.append_nil]
    intro b hb
    have hmem := List.mem_map_of_mem (f := Prod.fst) (List.mem_reverse.mp hb)
    rw [hls] at hmem
    obtain ⟨i, -, heq⟩ := List.mem_map.mp hmem
    exact ⟨i, heq.symm⟩
  by_cases hfew : min (cores.length - rxJobs) txJobs < txJobs
  · rw [if_pos hfew] at h
    obtain rfl := Option.some.inj h
    exact hfirst
  · rw [if_neg hfew] at h
    obtain ⟨test, htest, h⟩ := Option.bind_eq_some_iff.mp h
    obtain ⟨senders, hsenders, rfl⟩ := Option.map_eq_some_iff.mp h
    obtain ⟨hlatency, hbusy'⟩ : Apart SharedQueue (occupied [] (ls.map fun j => Step.launch j.1 j.2)) test ∧
        Receiving (occupied (occupied [] (ls.map fun j => Step.launch j.1 j.2)) test) := by
      split_ifs at htest
      · exact apart_latencyTest _ hbusy htest
      · obtain rfl := Option.some.inj htest
        exact ⟨trivial, hbusy⟩
    rw [apart_append, apart_append, apart_append, occupied_append]
    refine ⟨⟨⟨hfirst, hlatency⟩, ?_⟩, apart_waits ..⟩
    split_ifs at hsenders
    · exact apart_throughputTest _ hbusy' hsenders
    · obtain rfl := Option.some.inj hsenders
      trivial

end Unshared

/-- Whatever plan `run` carries out and however its jobs interleave, no two of them that run at the same
time use the same queue of the NIC. -/
theorem queues_unshared (lcores cores : List Core) (mainCore : Core) (rxJobs txJobs : ℕ)
    (latency throughput : Bool) (plan : List LaunchStep)
    (hplan : launchPlan cores mainCore rxJobs txJobs latency throughput = some plan)
    (es : List (Event Core)) (tr : List (Transition (Workers SockperfJob Core) (Event Core)))
    (htr : trace (Workers.step mainCore lcores) (.start plan) es = some tr) :
    ∀ t ∈ tr, t.post.Unclashing SharedQueue :=
  Workers.run_unclashing mainCore lcores plan SharedQueue sharedQueue_symm
    (apart_launchPlan latency throughput hplan) es tr htr

/-- The receive job, the latency test and both senders; the job of lcore 4 does not end. -/
theorem queues_unshared_two :
    ∃ plan tr, launchPlan [4, 2, 0] 0 1 2 true true = some plan ∧
      trace (Workers.step 0 [0, 1, 2, 3, 4, 5]) (.start plan) [.next, .next, .next, .next, .finish 2, .next] =
        some tr ∧
      ∀ t ∈ tr, t.post.Unclashing SharedQueue :=
  ⟨_, _, rfl, rfl, queues_unshared [0, 1, 2, 3, 4, 5] [4, 2, 0] 0 1 2 true true _ rfl
    [.next, .next, .next, .next, .finish 2, .next] _ rfl⟩

end DpdkTools.Sockperf
