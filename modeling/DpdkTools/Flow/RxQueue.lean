import DpdkTools.Device.Mcast
import DpdkTools.Device.RxJob

/-! A receive queue that is fed by flow rules: `flow::rx_queue` (`dpdkx/flow/rx_queue.cpp`), its
polling loop `run_exclusive` (`dpdkx/jobs.cpp`) and the rule `make_udp_flow` builds
(`dpdkx/flow/flow.cpp`).

The answers of `rte_flow_create` and `rte_flow_destroy` are parameters. An operation that may
throw returns the queue in every case: the effects before the throw stay. -/
namespace DpdkTools
set_option autoImplicit false

/-- The fields the pattern of `make_udp_flow` fixes, under full masks, and the queue of its action. -/
structure FlowRule where
  queue : ℕ
  nextProtoId : UInt8
  dstAddr : Be32
  dstPort : Be16
  deriving Repr, DecidableEq

def makeUdpFlow (queue : ℕ) (ep : Ip4Endpoint) : FlowRule := ⟨queue, ipprotoUdp, ep.1, ep.2⟩

/-- The answers of the NIC during one call: to the `k`-th `rte_flow_destroy`, and to
`rte_flow_create`. -/
structure FlowEnv where
  destroy : ℕ → Bool
  create : Bool

structure FlowQueue where
  queueId : ℕ
  flows : List FlowRule
  channel : Option ChannelPtr
  deriving Repr, DecidableEq

namespace FlowQueue

def assigned (q : FlowQueue) : Bool := q.channel.isSome

def routeTo (q : FlowQueue) (env : FlowEnv) (ep : Ip4Endpoint) : FlowQueue × ErrorCode :=
  if env.create then ({ q with flows := q.flows ++ [makeUdpFlow q.queueId ep] }, none)
  else (q, some .flow)

/-- `reset()`: the flows that could be destroyed are removed. -/
def resetFlows (q : FlowQueue) (env : FlowEnv) : FlowQueue :=
  { q with flows := (q.flows.zipIdx.filter fun f => !env.destroy f.2).map Prod.fst }

/-- The second attempt of `reset(ch, ep)`, from the last flow on; `calls` destroy calls were made. -/
def destroyRest (env : FlowEnv) : ℕ → List FlowRule → List FlowRule × ErrorCode
  | _, [] => ([], none)
  | calls, f :: fs =>
    if env.destroy calls then destroyRest env (calls + 1) fs else (f :: fs, some .flow)

/-- `reset(ch, ep)`; an error is thrown. -/
def reset (q : FlowQueue) (env : FlowEnv) (ch : Option ChannelPtr) (ep : Ip4Endpoint) :
    FlowQueue × ErrorCode :=
  let q' := q.resetFlows env
  match destroyRest env q.flows.length q'.flows.reverse with
  | (rest, some e) => ({ q' with flows := rest.reverse }, some e)
  | (rest, none) => routeTo { q' with flows := rest.reverse, channel := ch } env ep

end FlowQueue

/-! ## The polling loop -/

structure FlowOutcome where
  heap : MbufHeap
  actions : List RxAction

/-- One round of `run_exclusive` on a burst. The count that the channel returns is dropped. -/
def rxBurst (ch : ChannelPtr) (heap : MbufHeap) (burst : List MbufPtr) : Option FlowOutcome :=
  if burst = [] then some ⟨heap, []⟩
  else (updateLens heap burst).map fun heap' => ⟨heap', [.enqueue ch burst]⟩

def rxBursts (ch : ChannelPtr) : MbufHeap → List (List MbufPtr) → Option FlowOutcome
  | heap, [] => some ⟨heap, []⟩
  | heap, burst :: bursts =>
    (rxBurst ch heap burst).bind fun o =>
      (rxBursts ch o.heap bursts).map fun o' => ⟨o'.heap, o.actions ++ o'.actions⟩

/-- `run_exclusive` over the bursts the queue delivers. It takes none before a channel is assigned,
and none when `enqueue_proxy` throws, as the one of `rx_channel` does. -/
def FlowQueue.runExclusive (q : FlowQueue) (enqueueProxy : ChannelPtr → Bool) (heap : MbufHeap)
    (bursts : List (List MbufPtr)) : Option FlowOutcome :=
  match q.channel with
  | none => some ⟨heap, []⟩
  | some ch => if enqueueProxy ch then rxBursts ch heap bursts else some ⟨heap, []⟩

end DpdkTools
