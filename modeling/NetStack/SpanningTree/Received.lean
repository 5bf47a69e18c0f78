import NetStack.Ip
import NetStack.SpanningTree.Selection
import NetStack.SpanningTree.Witness

/-! Frames as they come in (`main.c`, `stp.c`, `include/stp_proto.h` of `EXP06-STP/code/06-stp`).

A config is read at fixed offsets of whatever frame gets as far. Its priority is compared as
it comes, its cost unsigned, and that of a port record as it is stored, its cost signed. The
two comparisons agree on costs of one sign (`comparisons_agree_iff`).

The filter in `handle_packet` compares one byte of the destination, since the address it
compares with is an array whose elements are bytes. A frame to another address is without
effect exactly where that byte keeps it out, or what it is taken for has nothing to say to
the switch (`handlePacket_ignores_iff`). -/
namespace NetStack.SpanningTree

/-- `eth_stp_addr`. -/
def ethStpAddr : List U8 := [0x01, 0x80, 0xC2, 0x00, 0x00, 0x01]

/-- `LLC_HDR_SIZE`, `STP_TYPE_CONFIG`. -/
def llcHdrSize : Nat := 3
def stpTypeConfig : U8 := 0x00

/-- `ntohll`, of a little-endian host. -/
def ntohll (x : U64) : U64 :=
  (ntohl (x.setWidth 32)).setWidth 64 <<< 32 ||| (ntohl ((x >>> 32).setWidth 32)).setWidth 64

/-- The `u64` at an address. -/
def load64 (m : Mem) (a : Nat) : U64 := m.load32 (a + 4) ++ m.load32 a

/-- `msg_type` of the `struct stp_header` at `header`. -/
def msgType (m : Mem) (header : Nat) : U8 := m.load8 (header + 3)

/-- The packed `struct stp_config` at `config`, converted as it is read. -/
def stpConfig (m : Mem) (config : Nat) : StpConfig where
  rootId := ntohll (load64 m (config + 5))
  rootPathCost := ntohl (m.load32 (config + 13))
  switchId := ntohll (load64 m (config + 17))
  portId := ntohs (m.load16 (config + 25))

/-! ### The two comparisons -/

/-- What an `int` holds is what the `u32` of the same bits says, read as signed. -/
theorem toInt_ofInt_int {n : Int} (hlow : -2 ^ 31 ≤ n) (hhigh : n < 2 ^ 31) : (BitVec.ofInt 32 n).toInt = n := by
  rw [BitVec.toInt_ofInt]
  apply Int.bmod_eq_of_le_mul_two <;> omega

/-- Costs compare the same signed and unsigned if they are of one sign, and else the other
way round. -/
theorem toInt_lt_iff_lt {x y : U32} (hne : x ≠ y) :
    (x < y ↔ x.toInt < y.toInt) ↔ (x.toInt < 0 ↔ y.toInt < 0) := by
  have hx := BitVec.toInt_eq_toNat_cond x
  have hy := BitVec.toInt_eq_toNat_cond y
  have hxlt := x.isLt
  have hylt := y.isLt
  have hnat : x.toNat ≠ y.toNat := fun h => hne (BitVec.eq_of_toNat_eq h)
  rw [BitVec.lt_def]
  split at hx <;> split at hy <;> omega

/-- The record of a port, and a config on the wire: the two comparisons give one answer
exactly if the roots tell already, or the costs are of one sign. -/
theorem comparisons_agree_iff {p : StpPort} (hlow : -2 ^ 31 ≤ p.designatedCost) (hhigh : p.designatedCost < 2 ^ 31)
    (q : StpPort) (m : Mem) (config : Nat) :
    recvHasHigherPirority p (stpConfig m config) =
        comparePortsPirority p (updatePortConfig q (stpConfig m config)) ↔
      p.designatedRoot ≠ (stpConfig m config).rootId ∨
        (p.designatedCost < 0 ↔ (stpConfig m config).rootPathCost.toInt < 0) := by
  generalize stpConfig m config = c
  have hcost := toInt_ofInt_int hlow hhigh
  by_cases hroot : p.designatedRoot = c.rootId
  · rw [or_iff_right (not_not_intro hroot)]
    by_cases hsame : BitVec.ofInt 32 p.designatedCost = c.rootPathCost
    · have hint : p.designatedCost = c.rootPathCost.toInt := by rw [← hsame, hcost]
      refine iff_of_true ?_ (by rw [hint])
      simp [recvHasHigherPirority, comparePortsPirority, updatePortConfig, hroot, hsame, ← hint]
    · have hint : p.designatedCost ≠ c.rootPathCost.toInt := by
        rw [← hcost]
        exact fun h => hsame (BitVec.eq_of_toInt_eq h)
      have hsign := toInt_lt_iff_lt hsame
      rw [hcost] at hsign
      have hrecv : recvHasHigherPirority p c = !decide (BitVec.ofInt 32 p.designatedCost < c.rootPathCost) := by
        rw [recvHasHigherPirority, if_neg (not_not_intro hroot), if_pos hsame]
      have hcompare : comparePortsPirority p (updatePortConfig q c) =
          !decide (p.designatedCost < c.rootPathCost.toInt) :=
        (if_neg (not_not_intro hroot)).trans (if_pos hint)
      rw [← hsign, hrecv, hcompare, Bool.not_inj_iff, decide_eq_decide]
  · refine iff_of_true ?_ (.inl hroot)
    exact (if_pos hroot).trans (if_pos hroot).symm

/-- A frame, as far as it is read, with the sender's address and the length left zero. -/
def configFrame (dhost : List U8) (config : List U8) : NetStack.Frame :=
  let bytes := dhost ++ List.replicate 8 0 ++ [0x42, 0x42, 3] ++ [0, 0, 0, 0, 0] ++ config
  ⟨fun i => bytes.getD i 0, bytes.length⟩

/-- A neighbour's config that agrees with the record of the port. -/
def sameConfig : NetStack.Frame :=
  configFrame ethStpAddr [0, 0, 0, 0, 0, 0, 0, 1, 0, 0, 0, 1, 0, 0, 0, 0, 0, 0, 0, 2, 0x80, 1]

theorem comparisons_agree_same :
    recvHasHigherPirority ⟨0x8001, 1, 1, 2, 0x8001, 1⟩ (stpConfig sameConfig.mem 17) =
        comparePortsPirority ⟨0x8001, 1, 1, 2, 0x8001, 1⟩
          (updatePortConfig ⟨0x8001, 1, 1, 2, 0x8001, 1⟩ (stpConfig sameConfig.mem 17)) ↔
      (1 : U64) ≠ (stpConfig sameConfig.mem 17).rootId ∨
        ((1 : Int) < 0 ↔ (stpConfig sameConfig.mem 17).rootPathCost.toInt < 0) :=
  comparisons_agree_iff (p := ⟨0x8001, 1, 1, 2, 0x8001, 1⟩) (by decide) (by decide) _ _ _

/-- A neighbour that claims the cost 2 ^ 31 for the same root. -/
def farConfig : NetStack.Frame :=
  configFrame ethStpAddr [0, 0, 0, 0, 0, 0, 0, 1, 0x80, 0, 0, 0, 0, 0, 0, 0, 0, 0, 0, 2, 0x80, 1]

theorem comparisons_differ :
    recvHasHigherPirority ⟨0x8001, 1, 1, 2, 0x8001, 1⟩ (stpConfig farConfig.mem 17) = false ∧
      comparePortsPirority ⟨0x8001, 1, 1, 2, 0x8001, 1⟩
        (updatePortConfig ⟨0x8001, 1, 1, 2, 0x8001, 1⟩ (stpConfig farConfig.mem 17)) = true := by
  decide

/-! ### The filter -/

namespace Stp

/-- `stp_port_handle_packet`. -/
def portHandlePacket (stp : Stp) (i : Nat) (packet : NetStack.Frame) : Stp × List (Nat × StpConfig) :=
  let header := etherHdrSize + llcHdrSize
  if msgType packet.mem header = stpTypeConfig then stp.handleConfigPacket i (stpConfig packet.mem header)
  else (stp, [])

/-- `handle_packet`, of the interface with port `i`: `sizeof(*eth_stp_addr)` is 1. -/
def handlePacket (stp : Stp) (i : Nat) (packet : NetStack.Frame) : Stp × List (Nat × StpConfig) :=
  if packet.mem.read 0 1 ≠ ethStpAddr.take 1 then (stp, []) else stp.portHandlePacket i packet

/-- A config at port `i`, with record `p`, says what the record says, and the switch is what
the updates would make it. -/
structure Redundant (stp : Stp) (i : Nat) (p : StpPort) (config : StpConfig) : Prop where
  sender : config.switchId = p.designatedSwitch ∧ (config.portId.toNat : Int) = p.designatedPort
  held : stp.portIsDesignated p = false → config.rootId = p.designatedRoot ∧
    config.rootPathCost.toInt = p.designatedCost
  elected : stp.chooseRootPort = stp.rootPort
  derived : Derived (stp.record i p config)
  offered : ∀ q ∈ stp.ports, stp.portIsDesignated q = true →
    q.designatedRoot = stp.designatedRoot ∧ q.designatedCost = stp.rootPathCost

/-- It has no timer to stop and no config to send, unless it is the root and does neither. -/
def Silent (stp : Stp) : Prop :=
  stp.isRootSwitch = false → stp.helloTimer = false ∧ ∀ q ∈ stp.ports, stp.portIsDesignated q = false

variable {stp : Stp} {i : Nat} {p : StpPort} {config : StpConfig}

/-- What `update_other_ports` makes of a port. -/
def offerAt (stp : Stp) (p : StpPort) : StpPort :=
  if stp.portIsDesignated p then { p with designatedRoot := stp.designatedRoot, designatedCost := stp.rootPathCost }
  else p

@[simp] theorem offerAt_designatedSwitch (stp : Stp) (p : StpPort) :
    (stp.offerAt p).designatedSwitch = p.designatedSwitch := by
  unfold offerAt
  split <;> rfl

@[simp] theorem offerAt_designatedPort (stp : Stp) (p : StpPort) :
    (stp.offerAt p).designatedPort = p.designatedPort := by
  unfold offerAt
  split <;> rfl

theorem offerAt_held (h : stp.portIsDesignated p = false) : stp.offerAt p = p := by
  rw [offerAt, h, if_neg Bool.false_ne_true]

/-- A port stays as it is exactly if it has what the switch has, where it is designated. -/
theorem offerAt_eq_iff : stp.offerAt p = p ↔
    (stp.portIsDesignated p = true → p.designatedRoot = stp.designatedRoot ∧ p.designatedCost = stp.rootPathCost) := by
  cases hown : stp.portIsDesignated p with
  | false => exact iff_of_true (offerAt_held hown) nofun
  | true =>
    rw [offerAt, hown, if_pos rfl]
    constructor
    · intro heq _
      exact ⟨(congrArg StpPort.designatedRoot heq).symm, (congrArg StpPort.designatedCost heq).symm⟩
    · intro h
      obtain ⟨hroot, hcost⟩ := h rfl
      rw [← hroot, ← hcost]

theorem updateRoot_eq (stp : Stp) : stp.updateRoot =
    { stp with
      rootPort := stp.chooseRootPort
      designatedRoot := stp.updateRoot.designatedRoot
      rootPathCost := stp.updateRoot.rootPathCost } := by
  unfold updateRoot
  dsimp only
  split <;> rfl

/-- Where the switch has the root port that would be chosen, and follows it, `update_root`
changes nothing. -/
theorem updateRoot_eq_self (helected : stp.chooseRootPort = stp.rootPort) (hderived : Derived stp)
    (hroot : ∀ k, stp.rootPort = some k → k < stp.ports.length) : stp.updateRoot = stp := by
  obtain ⟨hunset, hrooted⟩ := updateRoot_derived stp
  rw [updateRoot_rootPort, helected] at hunset
  rw [updateRoot_rootPort, helected, updateRoot_ports] at hrooted
  have hsame : stp.updateRoot.designatedRoot = stp.designatedRoot ∧
      stp.updateRoot.rootPathCost = stp.rootPathCost := by
    cases hport : stp.rootPort with
    | none =>
      obtain ⟨hid, hcost⟩ := hderived.1 hport
      obtain ⟨hid', hcost'⟩ := hunset hport
      rw [hid, hcost, hid', hcost', updateRoot_switchId]
      exact ⟨rfl, rfl⟩
    | some k =>
      have hq := List.getElem?_eq_getElem (hroot k hport)
      obtain ⟨hid, hcost⟩ := hderived.2 k _ hport hq
      obtain ⟨hid', hcost'⟩ := hrooted k _ hport hq
      exact ⟨hid'.trans hid.symm, hcost'.trans hcost.symm⟩
  rw [updateRoot_eq, helected, hsame.1, hsame.2]

/-- A port that is not designated before or after does not count. -/
theorem filter_zipIdx_set {α : Type} {P : α × Nat → Bool} {l : List α} {x y : α} (n : Nat)
    (hx : l[i]? = some x) (hPx : ∀ k, P (x, k) = false) (hPy : ∀ k, P (y, k) = false) :
    ((l.set i y).zipIdx n).filter P = (l.zipIdx n).filter P := by
  induction l generalizing i n with
  | nil => rfl
  | cons z l ih =>
    cases i with
    | zero =>
      obtain rfl : z = x := Option.some.inj hx
      rw [List.set_cons_zero, List.zipIdx_cons, List.zipIdx_cons,
        List.filter_cons_of_neg (by simp [hPy]), List.filter_cons_of_neg (by simp [hPx])]
    | succ i =>
      rw [List.set_cons_succ, List.zipIdx_cons, List.zipIdx_cons, List.filter_cons, List.filter_cons,
        ih (n + 1) hx]

/-- A config from the sender of the record leaves the port designated or not. -/
theorem portIsDesignated_update (stp : Stp) (hswitch : config.switchId = p.designatedSwitch)
    (hport : (config.portId.toNat : Int) = p.designatedPort) :
    stp.portIsDesignated (updatePortConfig p config) = stp.portIsDesignated p := by
  simp [portIsDesignated, updatePortConfig, hswitch, hport]

/-- If it says what the record says, the port's place in the choice of a root port stays. -/
theorem chooseRootPort_record (hp : stp.ports[i]? = some p) (hswitch : config.switchId = p.designatedSwitch)
    (hport : (config.portId.toNat : Int) = p.designatedPort)
    (hheld : stp.portIsDesignated p = false → updatePortConfig p config = p) :
    (stp.record i p config).chooseRootPort = stp.chooseRootPort := by
  have hports : (stp.record i p config).nonDesignatedPorts = stp.nonDesignatedPorts := by
    have hsame := portIsDesignated_update stp hswitch hport
    cases hown : stp.portIsDesignated p with
    | false =>
      obtain ⟨hlt, rfl⟩ := List.getElem?_eq_some_iff.mp hp
      rw [Stp.record, hheld hown, List.set_getElem_self hlt]
    | true =>
      refine filter_zipIdx_set 0 hp (fun _ => ?_) fun _ => ?_
      · show (!stp.portIsDesignated p) = false
        rw [hown, Bool.not_true]
      · show (!stp.portIsDesignated (updatePortConfig p config)) = false
        rw [hsame, hown, Bool.not_true]
  rw [chooseRootPort, hports]
  rfl

/-- The record of the config, as the designated ports are brought up to date. -/
theorem offerAt_update_iff :
    stp.offerAt (updatePortConfig p config) = p ↔
      (config.switchId = p.designatedSwitch ∧ (config.portId.toNat : Int) = p.designatedPort) ∧
        (stp.portIsDesignated p = false → config.rootId = p.designatedRoot ∧
          config.rootPathCost.toInt = p.designatedCost) ∧ stp.offerAt p = p := by
  constructor
  · intro heq
    have hswitch : config.switchId = p.designatedSwitch := by
      rw [← heq, offerAt_designatedSwitch]
      rfl
    have hport : (config.portId.toNat : Int) = p.designatedPort := by
      rw [← heq, offerAt_designatedPort]
      rfl
    have hsame := portIsDesignated_update stp hswitch hport
    cases hown : stp.portIsDesignated p with
    | false =>
      rw [offerAt_held (hsame.trans hown)] at heq
      exact ⟨⟨hswitch, hport⟩, fun _ => ⟨congrArg StpPort.designatedRoot heq, congrArg StpPort.designatedCost heq⟩,
        offerAt_held hown⟩
    | true =>
      refine ⟨⟨hswitch, hport⟩, nofun, offerAt_eq_iff.mpr fun _ => ?_⟩
      rw [offerAt, hsame.trans hown, if_pos rfl] at heq
      exact ⟨(congrArg StpPort.designatedRoot heq).symm, (congrArg StpPort.designatedCost heq).symm⟩
  · intro h
    obtain ⟨⟨hswitch, hport⟩, hheld, hoffer⟩ := h
    have hsame := portIsDesignated_update stp hswitch hport
    cases hown : stp.portIsDesignated p with
    | false =>
      obtain ⟨hroot, hcost⟩ := hheld hown
      rw [offerAt_held (hsame.trans hown), updatePortConfig, hroot, hcost, hswitch, hport]
    | true =>
      obtain ⟨hroot, hcost⟩ := offerAt_eq_iff.mp hoffer hown
      rw [offerAt, hsame.trans hown, if_pos rfl, updatePortConfig, hswitch, hport, ← hroot, ← hcost]

/-- What a map over a list with one element replaced leaves as it was. -/
theorem map_set_eq_iff {α : Type} {f : α → α} {l : List α} {x y : α} (hx : l[i]? = some x) :
    (l.set i y).map f = l ↔ f y = x ∧ ∀ k z, k ≠ i → l[k]? = some z → f z = z := by
  have hlt := (List.getElem?_eq_some_iff.mp hx).1
  constructor
  · intro heq
    constructor
    · have hat := congrArg (·[i]?) heq
      simp only [List.getElem?_map, List.getElem?_set_self hlt, Option.map_some, hx] at hat
      exact Option.some.inj hat
    · intro k z hk hz
      have hat := congrArg (·[k]?) heq
      simp only [List.getElem?_map, List.getElem?_set_ne (Ne.symm hk), hz, Option.map_some] at hat
      exact Option.some.inj hat
  · intro h
    obtain ⟨hself, hother⟩ := h
    apply List.ext_getElem?
    intro k
    by_cases hk : k = i
    · subst hk
      rw [List.getElem?_map, List.getElem?_set_self hlt, Option.map_some, hself, hx]
    · rw [List.getElem?_map, List.getElem?_set_ne (Ne.symm hk)]
      cases hz : l[k]? with
      | none => rfl
      | some z => rw [Option.map_some, hother k z hk hz]

/-- The updates leave a switch as it was before the config was recorded exactly if the config
is redundant. -/
theorem recomputed_iff (hp : stp.ports[i]? = some p)
    (hroot : ∀ k, stp.rootPort = some k → k < stp.ports.length) :
    (stp.record i p config).updateRoot.updateOtherPorts = stp ↔ Redundant stp i p config := by
  have hports : (stp.record i p config).updateOtherPorts.ports = stp.ports ↔
      stp.offerAt (updatePortConfig p config) = p ∧ ∀ k q, k ≠ i → stp.ports[k]? = some q → stp.offerAt q = q :=
    map_set_eq_iff hp
  constructor
  · intro heq
    have hport := congrArg Stp.rootPort heq
    have hchoose : (stp.record i p config).chooseRootPort = stp.rootPort := (updateRoot_rootPort _).symm.trans hport
    have hroot' := congrArg Stp.designatedRoot heq
    have hid : (stp.record i p config).updateRoot.designatedRoot = stp.designatedRoot := hroot'
    have hcost' := congrArg Stp.rootPathCost heq
    have hcost : (stp.record i p config).updateRoot.rootPathCost = stp.rootPathCost := hcost'
    -- `update_other_ports` changes ports only, so `update_root` changed nothing.
    have hself : (stp.record i p config).updateRoot = stp.record i p config := by
      rw [updateRoot_eq, hchoose, hid, hcost]
      rfl
    obtain ⟨hupdate, hother⟩ := hports.mp (hself ▸ congrArg Stp.ports heq)
    obtain ⟨hsender, hheld, hoffer⟩ := offerAt_update_iff.mp hupdate
    have hsame : stp.portIsDesignated p = false → updatePortConfig p config = p := fun hown => by
      rwa [offerAt_held ((portIsDesignated_update stp hsender.1 hsender.2).trans hown)] at hupdate
    refine ⟨hsender, hheld, ?_, hself ▸ updateRoot_derived (stp.record i p config), fun q hq => ?_⟩
    · rw [← chooseRootPort_record hp hsender.1 hsender.2 hsame, hchoose]
    · obtain ⟨k, hk⟩ := List.mem_iff_getElem?.mp hq
      by_cases hik : k = i
      · subst hik
        obtain rfl := Option.some.inj (hp.symm.trans hk)
        exact offerAt_eq_iff.mp hoffer
      · exact offerAt_eq_iff.mp (hother k q hik hk)
  · intro h
    have hoffer : ∀ q ∈ stp.ports, stp.offerAt q = q := fun q hq => offerAt_eq_iff.mpr (h.offered q hq)
    have hupdate : stp.offerAt (updatePortConfig p config) = p :=
      offerAt_update_iff.mpr ⟨h.sender, h.held, hoffer p (List.mem_of_getElem? hp)⟩
    have hsame : stp.portIsDesignated p = false → updatePortConfig p config = p := fun hown => by
      rwa [offerAt_held ((portIsDesignated_update stp h.sender.1 h.sender.2).trans hown)] at hupdate
    have hchoose : (stp.record i p config).chooseRootPort = (stp.record i p config).rootPort :=
      (chooseRootPort_record hp h.sender.1 h.sender.2 hsame).trans h.elected
    have hself : (stp.record i p config).updateRoot = stp.record i p config :=
      updateRoot_eq_self hchoose h.derived fun k hk => by simpa [Stp.record] using hroot k hk
    have hall := hports.mpr ⟨hupdate, fun k q _ hq => hoffer q (List.mem_of_getElem? hq)⟩
    rw [hself]
    show ({ stp with ports := (stp.record i p config).updateOtherPorts.ports } : Stp) = stp
    rw [hall]

/-- A switch that speaks sends nothing exactly if it has no designated port. -/
theorem sendConfig_eq_nil_iff (h : stp.isRootSwitch = true ∨ stp.rootPort ≠ none) :
    stp.sendConfig = [] ↔ ∀ q ∈ stp.ports, stp.portIsDesignated q = false := by
  have hspeaks : (!stp.isRootSwitch && stp.rootPort.isNone) = false := by
    rcases h with h | h
    · rw [h, Bool.not_true, Bool.false_and]
    · rw [Option.isNone_eq_false_iff.mpr (Option.isSome_iff_ne_none.mpr h), Bool.and_false]
  rw [sendConfig, List.filterMap_eq_nil_iff]
  constructor
  · intro hnil q hq
    obtain ⟨k, hk⟩ := List.mem_iff_getElem?.mp hq
    have hsent := hnil (q, k) (List.mem_zipIdx_iff_getElem?.mpr hk)
    cases hown : stp.portIsDesignated q with
    | false => rfl
    | true =>
      simp only [hown, if_true, portSendConfig, hspeaks, Bool.false_eq_true, if_false, Option.map_some] at hsent
      cases hsent
  · intro hother x hx
    simp only [hother x.1 (List.mem_of_getElem? (List.mem_zipIdx_iff_getElem?.mp hx)), Bool.false_eq_true, if_false]

theorem updateRoot_helloTimer (stp : Stp) : stp.updateRoot.helloTimer = stp.helloTimer := by
  rw [updateRoot_eq]

/-- A config that is recorded is without effect exactly if it is redundant, and the switch
silent. -/
theorem handleConfigPacket_eq_iff (hp : stp.ports[i]? = some p)
    (hroot : ∀ k, stp.rootPort = some k → k < stp.ports.length) (hrecv : recvHasHigherPirority p config = true) :
    stp.handleConfigPacket i config = (stp, []) ↔ Redundant stp i p config ∧ Silent stp := by
  have hiff : (stp.record i p config).updateRoot.updateOtherPorts = stp ↔ Redundant stp i p config :=
    recomputed_iff hp hroot
  have htimer : (stp.record i p config).updateRoot.updateOtherPorts.helloTimer = stp.helloTimer :=
    updateRoot_helloTimer (stp.record i p config)
  have hhandle : stp.handleConfigPacket i config =
      if (stp.record i p config).updateRoot.updateOtherPorts.isRootSwitch then
        ((stp.record i p config).updateRoot.updateOtherPorts, [])
      else
        ({ (stp.record i p config).updateRoot.updateOtherPorts with helloTimer := false },
          ({ (stp.record i p config).updateRoot.updateOtherPorts with helloTimer := false } : Stp).sendConfig) := by
    unfold handleConfigPacket
    rw [hp]
    exact if_pos hrecv
  generalize (stp.record i p config).updateRoot.updateOtherPorts = after at hiff htimer hhandle
  rw [hhandle]
  -- Where the switch is not the root it has a root port, and speaks.
  have hspeaks : Redundant stp i p config → stp.isRootSwitch = false → stp.rootPort ≠ none := by
    intro hredundant hother hnone
    obtain ⟨hid, -⟩ := hredundant.derived.1 hnone
    have hown : stp.isRootSwitch = true := decide_eq_true hid
    exact nomatch hown.symm.trans hother
  constructor
  · intro heq
    cases hown : after.isRootSwitch with
    | true =>
      rw [hown, if_pos rfl] at heq
      obtain rfl : after = stp := congrArg Prod.fst heq
      exact ⟨hiff.mp rfl, fun hother => nomatch hown.symm.trans hother⟩
    | false =>
      rw [hown, if_neg Bool.false_ne_true] at heq
      obtain ⟨hstp, hsent⟩ := Prod.mk.inj heq
      have hoff : stp.helloTimer = false := (congrArg Stp.helloTimer hstp).symm
      have hafter : after = stp := by
        rw [← hstp, ← htimer.trans hoff]
      subst hafter
      have hredundant := hiff.mp rfl
      rw [hstp] at hsent
      exact ⟨hredundant, fun hother =>
        ⟨hoff, (sendConfig_eq_nil_iff (.inr (hspeaks hredundant hother))).mp hsent⟩⟩
  · intro h
    obtain ⟨hredundant, hsilent⟩ := h
    obtain rfl := hiff.mpr hredundant
    cases hown : after.isRootSwitch with
    | true => rw [if_pos rfl]
    | false =>
      obtain ⟨hoff, hnone⟩ := hsilent hown
      have hself : ({ after with helloTimer := false } : Stp) = after := by rw [← hoff]
      rw [if_neg Bool.false_ne_true, hself,
        (sendConfig_eq_nil_iff (.inr (hspeaks hredundant hown))).mpr hnone]

/-- **The filter.** A frame that is not for the spanning tree leaves the switch as it was, and
nothing is sent, exactly if its destination does not start with the byte 01, or it is not
taken for a config, or the config is of lower priority than the port's record, or redundant
to a silent switch. -/
theorem handlePacket_ignores_iff (hp : stp.ports[i]? = some p)
    (hroot : ∀ k, stp.rootPort = some k → k < stp.ports.length) (packet : NetStack.Frame) :
    (packet.mem.read 0 6 ≠ ethStpAddr → stp.handlePacket i packet = (stp, [])) ↔
      packet.mem.read 0 6 = ethStpAddr ∨ packet.mem.load8 0 ≠ 0x01 ∨ msgType packet.mem 17 ≠ stpTypeConfig ∨
        recvHasHigherPirority p (stpConfig packet.mem 17) = false ∨
          Redundant stp i p (stpConfig packet.mem 17) ∧ Silent stp := by
  rw [Classical.or_iff_not_imp_left]
  refine imp_congr_right fun _ => ?_
  have hread : packet.mem.read 0 1 = ethStpAddr.take 1 ↔ packet.mem.load8 0 = 0x01 := by
    show [packet.mem 0] = [0x01] ↔ packet.mem 0 = 0x01
    rw [List.cons.injEq, and_iff_left rfl]
  by_cases hfirst : packet.mem.load8 0 = 0x01
  · rw [or_iff_right (not_not_intro hfirst), handlePacket, if_neg (not_not_intro (hread.mpr hfirst)),
      portHandlePacket]
    by_cases hmsg : msgType packet.mem 17 = stpTypeConfig
    · rw [or_iff_right (not_not_intro hmsg)]
      show (if msgType packet.mem 17 = stpTypeConfig then _ else _) = (stp, []) ↔ _
      rw [if_pos hmsg]
      show stp.handleConfigPacket i (stpConfig packet.mem 17) = (stp, []) ↔ _
      cases hrecv : recvHasHigherPirority p (stpConfig packet.mem 17) with
      | false =>
        refine iff_of_true ?_ (.inl rfl)
        rw [handleConfigPacket, hp]
        exact if_neg (by rw [hrecv]; exact Bool.false_ne_true)
      | true =>
        rw [or_iff_right (by decide)]
        exact handleConfigPacket_eq_iff hp hroot hrecv
    · exact iff_of_true (if_neg hmsg) (.inl hmsg)
  · refine iff_of_true ?_ (.inl hfirst)
    rw [handlePacket, if_pos (fun h => hfirst (hread.mp h))]

/-- A switch that has heard nothing. -/
def freshSwitch : Stp := stpInit [0, 0, 0, 0, 0, 3] 2

/-- A frame to the address of all hosts of a network, with what could be a config behind it. -/
def groupFrame : NetStack.Frame :=
  configFrame [0x01, 0x00, 0x5E, 0x00, 0x00, 0x01]
    [0, 0, 0, 0, 0, 0, 0, 1, 0, 0, 0, 0, 0, 0, 0, 0, 0, 0, 0, 1, 0x80, 1]

/-- The switch once that frame has come: its root port is the port it came to. -/
def heardSwitch : Stp := (freshSwitch.handlePacket 0 groupFrame).1

/-- One of lower priority. -/
def lowerFrame : NetStack.Frame :=
  configFrame [0x01, 0x00, 0x5E, 0x00, 0x00, 0x01]
    [0, 0, 0, 0, 0, 0, 0, 2, 0, 0, 0, 0, 0, 0, 0, 0, 0, 0, 0, 2, 0x80, 1]

theorem handlePacket_ignores_heard :
    heardSwitch.rootPort = some 0 ∧ heardSwitch.handlePacket 0 lowerFrame = (heardSwitch, []) := by
  have hport : heardSwitch.rootPort = some 0 := by decide
  have hroot : ∀ k, heardSwitch.rootPort = some k → k < heardSwitch.ports.length := by
    intro k hk
    obtain rfl := Option.some.inj (hport.symm.trans hk)
    decide
  exact ⟨hport, (handlePacket_ignores_iff (p := heardSwitch.ports.get ⟨0, by decide⟩) rfl hroot lowerFrame).mpr
    (.inr (.inr (.inr (.inl (by decide))))) (by decide)⟩

/-- The first frame makes the fresh switch give up being the root. -/
theorem handlePacket_takes_group :
    groupFrame.mem.read 0 6 ≠ ethStpAddr ∧
      (freshSwitch.handlePacket 0 groupFrame).1.designatedRoot = 1 ∧ freshSwitch.designatedRoot ≠ 1 := by
  decide

end Stp
end NetStack.SpanningTree
