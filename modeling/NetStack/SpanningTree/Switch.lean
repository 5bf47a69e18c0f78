import NetStack.Types
import Mathlib.Algebra.Order.Ring.Int

/-! A spanning-tree switch (`stp.c`, `include/stp.h`, `include/stp_proto.h` of
`EXP06-STP/code/06-stp`).

A C `int` is an integer here, wrapped to 32 bits where the source adds, and converted
where it meets a field of a config. A config is the fields the source reads; the rest of
the frame is constant. `root_port` is the index of the port it points to. -/
namespace NetStack.SpanningTree

/-- `STP_BRIDGE_PRIORITY`, `STP_PORT_PRIORITY`. -/
def bridgePriority : U64 := 32768
def portPriority : Nat := 128

/-- `STP_MAX_PORTS`. -/
def maxPorts : Nat := 32

/-- `struct stp_config`, in host order. -/
structure StpConfig where
  rootId : U64
  rootPathCost : U32
  switchId : U64
  portId : U16
deriving DecidableEq, Repr

/-- `struct stp_port`, less its name and interface. -/
structure StpPort where
  portId : Int
  pathCost : Int
  designatedRoot : U64
  designatedSwitch : U64
  designatedPort : Int
  designatedCost : Int
deriving DecidableEq, Repr

/-- `struct stp`; of the hello timer, whether it runs. -/
structure Stp where
  switchId : U64
  designatedRoot : U64
  rootPathCost : Int
  rootPort : Option Nat
  helloTimer : Bool
  ports : List StpPort
deriving DecidableEq, Repr

/-- The switch id `stp_init` puts together from the first interface's address. -/
def switchIdOf (mac : List U8) : U64 :=
  mac.foldl (fun (addr : U64) byte => (addr <<< 8) + byte.setWidth 64) 0 ||| (bridgePriority <<< 48)

/-- `stp_port_init` of the port with this index, with the two fields `stp_init` sets. -/
def portInit (switchId : U64) (i : Nat) : StpPort where
  portId := ((portPriority <<< 8 ||| (i + 1) : Nat) : Int)
  pathCost := 1
  designatedRoot := switchId
  designatedSwitch := switchId
  designatedPort := ((portPriority <<< 8 ||| (i + 1) : Nat) : Int)
  designatedCost := 0

/-- `stp_init`. -/
def stpInit (mac : List U8) (nports : Nat) : Stp where
  switchId := switchIdOf mac
  designatedRoot := switchIdOf mac
  rootPathCost := 0
  rootPort := none
  helloTimer := true
  ports := (List.range nports).map (portInit (switchIdOf mac))

/-- `recv_has_higher_pirority`, true for its 1. An `int` cost is compared with the `u32`
of the config as a `u32`. -/
def recvHasHigherPirority (p : StpPort) (config : StpConfig) : Bool :=
  if p.designatedRoot ≠ config.rootId then !decide (p.designatedRoot < config.rootId)
  else if BitVec.ofInt 32 p.designatedCost ≠ config.rootPathCost then
    !decide (BitVec.ofInt 32 p.designatedCost < config.rootPathCost)
  else if p.designatedSwitch ≠ config.switchId then !decide (p.designatedSwitch < config.switchId)
  else if p.designatedPort ≠ config.portId.toNat then !decide (p.designatedPort < config.portId.toNat)
  else true

/-- `compare_ports_pirority`, true for its 1. -/
def comparePortsPirority (p1 p2 : StpPort) : Bool :=
  if p1.designatedRoot ≠ p2.designatedRoot then !decide (p1.designatedRoot < p2.designatedRoot)
  else if p1.designatedCost ≠ p2.designatedCost then !decide (p1.designatedCost < p2.designatedCost)
  else if p1.designatedSwitch ≠ p2.designatedSwitch then
    !decide (p1.designatedSwitch < p2.designatedSwitch)
  else if p1.designatedPort ≠ p2.designatedPort then !decide (p1.designatedPort < p2.designatedPort)
  else true

/-- `update_port_config`. -/
def updatePortConfig (p : StpPort) (config : StpConfig) : StpPort :=
  { p with
    designatedRoot := config.rootId
    designatedSwitch := config.switchId
    designatedPort := config.portId.toNat
    designatedCost := config.rootPathCost.toInt }

namespace Stp

/-- `stp_is_root_switch`. -/
def isRootSwitch (stp : Stp) : Bool := stp.designatedRoot = stp.switchId

/-- `stp_port_is_designated`. -/
def portIsDesignated (stp : Stp) (p : StpPort) : Bool :=
  p.designatedSwitch = stp.switchId ∧ p.designatedPort = p.portId

/-- `stp_port_send_config`. -/
def portSendConfig (stp : Stp) (p : StpPort) : Option StpConfig :=
  if !stp.isRootSwitch && stp.rootPort.isNone then none
  else some {
    rootId := stp.designatedRoot
    rootPathCost := BitVec.ofInt 32 stp.rootPathCost
    switchId := stp.switchId
    portId := BitVec.ofInt 16 p.portId }

/-- `stp_send_config`: what goes out, by the port it leaves from. -/
def sendConfig (stp : Stp) : List (Nat × StpConfig) :=
  stp.ports.zipIdx.filterMap fun (p, i) =>
    if stp.portIsDesignated p then (stp.portSendConfig p).map fun config => (i, config) else none

/-- `stp_handle_hello_timeout`, which starts the timer again. -/
def handleHelloTimeout (stp : Stp) : Stp × List (Nat × StpConfig) :=
  ({ stp with helloTimer := true }, stp.sendConfig)

/-- The array `non_designated_ports`, with the ports' indices. -/
def nonDesignatedPorts (stp : Stp) : List (StpPort × Nat) :=
  stp.ports.zipIdx.filter fun x => !stp.portIsDesignated x.1

/-- The loop of `update_root` over the array, from `judge = 0` (`none`) or from the root
port it has come to. The last port is only compared with, never taken. -/
def judgePorts : Option (StpPort × Nat) → List (StpPort × Nat) → Option (StpPort × Nat)
  | none, x :: y :: rest =>
    if comparePortsPirority x.1 y.1 then judgePorts none (y :: rest) else judgePorts (some x) (y :: rest)
  | some root, x :: y :: rest =>
    if comparePortsPirority x.1 root.1 then judgePorts (some root) (y :: rest)
    else judgePorts (some x) (y :: rest)
  | found, _ => found

/-- `update_root`, up to where it has set `root_port`. -/
def chooseRootPort (stp : Stp) : Option Nat :=
  match stp.nonDesignatedPorts with
  | [x] => some x.2
  | ports =>
    match judgePorts none ports with
    | some x => some x.2
    | none => stp.rootPort

/-- `update_root`. -/
def updateRoot (stp : Stp) : Stp :=
  let stp := { stp with rootPort := stp.chooseRootPort }
  match stp.rootPort.bind fun i => stp.ports[i]? with
  | none => { stp with designatedRoot := stp.switchId, rootPathCost := 0 }
  | some p =>
    { stp with
      designatedRoot := p.designatedRoot
      rootPathCost := (p.designatedCost + p.pathCost).bmod (2 ^ 32) }

/-- `update_other_ports`. -/
def updateOtherPorts (stp : Stp) : Stp :=
  { stp with
    ports := stp.ports.map fun p =>
      if stp.portIsDesignated p then
        { p with designatedRoot := stp.designatedRoot, designatedCost := stp.rootPathCost }
      else p }

/-- `stp_handle_config_packet` on port `i`: the switch after it, and what it sends. -/
def handleConfigPacket (stp : Stp) (i : Nat) (config : StpConfig) : Stp × List (Nat × StpConfig) :=
  match stp.ports[i]? with
  | none => (stp, [])
  | some p =>
    if recvHasHigherPirority p config then
      let stp := { stp with ports := stp.ports.set i (updatePortConfig p config) }
      let stp := stp.updateRoot.updateOtherPorts
      if stp.isRootSwitch then (stp, [])
      else
        let stp := { stp with helloTimer := false }
        (stp, stp.sendConfig)
    else (stp, [])

/-! ### The switch after `update_root` -/

@[simp] theorem updateRoot_ports (stp : Stp) : stp.updateRoot.ports = stp.ports := by
  unfold updateRoot
  dsimp only
  split <;> rfl

@[simp] theorem updateRoot_switchId (stp : Stp) : stp.updateRoot.switchId = stp.switchId := by
  unfold updateRoot
  dsimp only
  split <;> rfl

@[simp] theorem updateRoot_rootPort (stp : Stp) : stp.updateRoot.rootPort = stp.chooseRootPort := by
  unfold updateRoot
  dsimp only
  split <;> rfl

end Stp

end NetStack.SpanningTree
