import NetStack.Mospf.Message
import NetStack.Mospf.Topology

/-! The mOSPF daemon over bytes (`mospf_daemon.c` of `EXP12-mOSPF/code/12-mopsf`).

The daemon with its neighbour timers, the handlers on the packets as they come, and
`sending_mospf_lsu` with the array it fills: a write beyond the array is where the model
has no next state. Each call of `sending_mospf_lsu` is recorded with the state it was made
in, also the calls from inside a hello or a pass over the neighbours.

`ip_init_hdr` is linked in from a library; here it is a parameter, which is given the
identification that `rand()` drew. -/
namespace NetStack.Mospf

/-- `MOSPF_DEFAULT_HELLOINT`. -/
def defaultHelloint : Int := 5

/-- `mospf_nbr_t`. -/
structure NbrEntry extends MospfNbr where
  alive : U8
deriving DecidableEq, Repr

/-- `iface_info_t`: what the daemon reads and sets of an interface. -/
structure IfaceInfo where
  ip : U32
  mask : U32
  helloint : Int
  numNbr : Int
  nbrList : List NbrEntry
deriving DecidableEq, Repr

/-- `ustack_t` and the database, and what `rand()` is still to give. -/
structure Daemon where
  areaId : U32
  routerId : U32
  sequenceNum : U16
  ifaceList : List IfaceInfo
  mospfDb : List MospfDbEntry
  rand : Nat → U16

/-- A call of `sending_mospf_lsu`: the state it is made in, and the frames it sends. -/
structure Sending where
  daemon : Daemon
  frames : List Frame

/-- What the daemon is after some of its code, and the calls that were made in it; none where an
array was written beyond its end. -/
abbrev Outcome := Option (Daemon × List Sending)

/-- One piece of code and then another. -/
def Outcome.andThen (r : Outcome) (next : Daemon → Outcome) : Outcome :=
  match r with
  | none => none
  | some (d, calls) => (next d).map fun (d, calls') => (d, calls ++ calls')

/-- The interface, less its timers. -/
def IfaceInfo.iface (iface : IfaceInfo) : Iface where
  ip := iface.ip
  mask := iface.mask
  numNbr := iface.numNbr.toNat
  nbrList := iface.nbrList.map NbrEntry.toMospfNbr

namespace Daemon

/-- The daemon, less its timers. -/
def inst (d : Daemon) : Instance := ⟨d.routerId, d.sequenceNum, d.ifaceList.map IfaceInfo.iface⟩

/-- `mospf_init`, on interfaces with these addresses and masks, the structures zeroed before. -/
def mospfInit (iface : U32 × U32) (ifaces : List (U32 × U32)) (rand : Nat → U16) : Daemon where
  areaId := 0
  routerId := iface.1
  sequenceNum := 0
  ifaceList := (iface :: ifaces).map fun iface => ⟨iface.1, iface.2, defaultHelloint, 0, []⟩
  mospfDb := []
  rand := rand

/-! ### Sending -/

/-- `array[index]` set, of `size` elements, and the next index; none beyond the array. -/
def setLsa (size : Nat) (array : Mem × Nat) (network mask rid : U32) : Option (Mem × Nat) :=
  if array.2 < size then
    let m := array.1.store32 (12 * array.2 + 4) (htonl mask)
    let m := m.store32 (12 * array.2) (htonl network)
    some (m.store32 (12 * array.2 + 8) (htonl rid), array.2 + 1)
  else none

/-- The elements for one interface; `rid` is 0 without neighbours, which is 0 in either order. -/
def fillIface (size : Nat) (array : Mem × Nat) (iface : IfaceInfo) : Option (Mem × Nat) :=
  if iface.numNbr = 0 then setLsa size array (iface.ip &&& iface.mask) iface.mask 0
  else iface.nbrList.foldlM (fun array nbr =>
    setLsa size array (nbr.nbrIp &&& nbr.nbrMask) nbr.nbrMask nbr.nbrId) array

/-- `nbr_num`. -/
def nbrNum (d : Daemon) : Int :=
  (d.ifaceList.map fun iface => if iface.numNbr = 0 then 1 else iface.numNbr).sum

/-- The array of `nbr_num + 1` elements, zeroed and filled. -/
def fillArray (d : Daemon) : Option (Mem × Nat) :=
  d.ifaceList.foldlM (fillIface (d.nbrNum + 1).toNat) (fun _ => 0, 0)

/-- The addresses a packet goes out with, for each neighbour on each interface. -/
def targets (d : Daemon) : List (U32 × U32) :=
  d.ifaceList.flatMap fun iface => iface.nbrList.map fun nbr => (iface.ip, nbr.nbrIp)

section Library

variable (ipInit : U16 → Mem → Nat → U32 → U32 → U16 → U8 → Mem)

/-- The packet for one neighbour, in zeroed memory; its Ethernet header is left out. -/
def lsuFrame (id : U16) (d : Daemon) (array : Mem) (target : U32 × U32) : Frame :=
  let len : Int := etherHdrSize + ipBaseHdrSize + mospfHdrSize + mospfLsuSize + d.nbrNum * mospfLsaSize
  let ip := etherHdrSize
  let mospf := ip + ipBaseHdrSize
  let lsu := mospf + mospfHdrSize
  let m := ipInit id (fun _ => 0) ip target.1 target.2 (BitVec.ofInt 16 (len - etherHdrSize)) ipprotoMospf
  let m := Wire.mospfInitHdr m mospf mospfTypeLsu (BitVec.ofInt 16 (len - etherHdrSize - ipBaseHdrSize))
    d.routerId d.areaId
  let m := Wire.mospfInitLsu d.sequenceNum m lsu (BitVec.ofInt 32 d.nbrNum)
  let m := m.copy (lsu + mospfLsuSize) array 0 (d.nbrNum * mospfLsaSize).toNat
  ⟨m.store16 (mospf + 12) (Wire.mospfChecksum m mospf), len.toNat⟩

/-- `sending_mospf_lsu`. -/
def sendingMospfLsu (d : Daemon) : Outcome :=
  d.fillArray.map fun array =>
    let d' := { d with sequenceNum := d.sequenceNum + 1 }
    let frames := d'.targets.mapIdx fun k target => lsuFrame ipInit (d.rand k) d' array.1 target
    ({ d' with rand := fun k => d.rand (frames.length + k) }, [⟨d, frames⟩])

/-! ### Neighbours -/

/-- The neighbour a hello speaks of. -/
def helloNbr (m : Mem) : MospfNbr where
  nbrId := ntohl (mospfHdr m (Wire.packetToMospfHdr m)).rid
  nbrIp := ntohl (iphdr m etherHdrSize).saddr
  nbrMask := ntohl (m.load32 (Wire.packetToMospfHdr m + mospfHdrSize))

/-- The search of `handle_mospf_hello`: the list with the neighbour's timer reset, if it is there. -/
def refresh (nbrIp : U32) : List NbrEntry → Option (List NbrEntry)
  | [] => none
  | nbr :: rest =>
    if nbr.nbrIp = nbrIp then some ({ nbr with alive := 0 } :: rest)
    else (refresh nbrIp rest).map (nbr :: ·)

/-- `handle_mospf_hello` on interface `i`. -/
def handleMospfHello (d : Daemon) (i : Nat) (packet : Mem) : Outcome :=
  match d.ifaceList[i]? with
  | none => some (d, [])
  | some iface =>
    match refresh (helloNbr packet).nbrIp iface.nbrList with
    | some nbrList => some ({ d with ifaceList := d.ifaceList.set i { iface with nbrList } }, [])
    | none =>
      let iface := { iface with
        nbrList := iface.nbrList ++ [⟨helloNbr packet, 0⟩]
        numNbr := iface.numNbr + 1 }
      sendingMospfLsu ipInit { d with ifaceList := d.ifaceList.set i iface }

/-- The turn of neighbour `j` in a pass over them, and whether it was deleted. -/
def ageNbr (iface : IfaceInfo) (j : Nat) : IfaceInfo × Bool :=
  match iface.nbrList[j]? with
  | none => (iface, false)
  | some nbr =>
    let alive := nbr.alive + 1
    if (alive.toNat : Int) > 3 * iface.helloint then
      ({ iface with nbrList := iface.nbrList.eraseIdx j, numNbr := iface.numNbr - 1 }, true)
    else ({ iface with nbrList := iface.nbrList.set j { nbr with alive } }, false)

/-- The inner loop of `checking_nbr_thread`, on interface `i`, with `n` neighbours to go from `j` on. -/
def checkNbrs (i : Nat) : Nat → Nat → Daemon → Outcome
  | _, 0, d => some (d, [])
  | j, n + 1, d =>
    match d.ifaceList[i]? with
    | none => some (d, [])
    | some iface =>
      let d' := { d with ifaceList := d.ifaceList.set i (ageNbr iface j).1 }
      if (ageNbr iface j).2 then (sendingMospfLsu ipInit d').andThen (checkNbrs i j n)
      else checkNbrs i (j + 1) n d'

/-- The outer loop, with `n` interfaces to go from `i` on. -/
def checkIfaces : Nat → Nat → Daemon → Outcome
  | _, 0, d => some (d, [])
  | i, n + 1, d =>
    let nbrs := (d.ifaceList[i]?.map fun iface => iface.nbrList.length).getD 0
    (checkNbrs ipInit i 0 nbrs d).andThen (checkIfaces (i + 1) n)

/-- One pass of `checking_nbr_thread`. -/
def checkingNbr (d : Daemon) : Outcome := checkIfaces ipInit 0 d.ifaceList.length d

/-! ### Receiving -/

/-- A copy of a received packet for one neighbour. -/
def forwardFrame (m : Mem) (len : Nat) (saddr daddr : U32) : Frame :=
  let ip := etherHdrSize
  let m := m.store32 (ip + 12) (htonl saddr)
  let m := m.store32 (ip + 16) (htonl daddr)
  let mospf := Wire.packetToMospfHdr m
  let m := m.store16 (mospf + 12) (Wire.mospfChecksum m mospf)
  ⟨m.store16 (ip + 10) (ipChecksum checksum m ip), len⟩

/-- `handle_mospf_lsu`: the daemon after it, and the copies it sends. -/
def handleMospfLsu (d : Daemon) (packet : Frame) : Daemon × List Frame :=
  match updateDb d.mospfDb (Wire.lsuPacket packet.mem) with
  | none => (d, [])
  | some mospfDb =>
    let mospf := Wire.packetToMospfHdr packet.mem
    let lsu := mospf + mospfHdrSize
    let m := packet.mem.store8 (lsu + 2) ((mospfLsuHdr packet.mem lsu).ttl - 1)
    ({ d with mospfDb },
      if 0 < (mospfLsuHdr m lsu).ttl then
        d.ifaceList.flatMap fun iface =>
          (iface.nbrList.filter fun nbr => nbr.nbrId ≠ ntohl (mospfHdr m mospf).rid).map fun nbr =>
            forwardFrame m packet.len iface.ip nbr.nbrIp
      else [])

/-- `handle_mospf_packet` on interface `i`: the daemon after it, its calls of
`sending_mospf_lsu`, and the copies it sends. -/
def handleMospfPacket (d : Daemon) (i : Nat) (packet : Frame) : Option (Daemon × List Sending × List Frame) :=
  if Wire.Accepted d.areaId packet.mem then
    let type := (mospfHdr packet.mem (Wire.packetToMospfHdr packet.mem)).type
    if type = mospfTypeHello then (d.handleMospfHello ipInit i packet.mem).map fun (d, calls) => (d, calls, [])
    else if type = mospfTypeLsu then some ((d.handleMospfLsu packet).1, [], (d.handleMospfLsu packet).2)
    else some (d, [], [])
  else some (d, [], [])

end Library

/-! ### The array -/

variable {d : Daemon} {iface : IfaceInfo} {size : Nat} {array : Mem × Nat}

/-- Neighbours are counted right. -/
def Counted (d : Daemon) : Prop := ∀ iface ∈ d.ifaceList, iface.numNbr = iface.nbrList.length

/-- What is to be advertised of an interface: its own network where it has no neighbours, and
each neighbour's where it has. -/
def ifaceLsas (iface : IfaceInfo) : List MospfLsa :=
  if iface.nbrList = [] then [⟨iface.ip &&& iface.mask, iface.mask, 0⟩]
  else iface.nbrList.map fun nbr => ⟨nbr.nbrIp &&& nbr.nbrMask, nbr.nbrMask, nbr.nbrId⟩

/-- What the daemon is to advertise, in interface order. -/
def advertised (d : Daemon) : List MospfLsa := d.ifaceList.flatMap ifaceLsas

/-- An element set right after the others is one more element. -/
theorem setLsa_spec (h : array.2 < size) (lsa : MospfLsa) :
    ∃ m, setLsa size array lsa.network lsa.mask lsa.rid = some (m, array.2 + 1) ∧
      mospfLsas m 0 (array.2 + 1) = mospfLsas array.1 0 array.2 ++ [lsa] := by
  refine ⟨_, if_pos h, ?_⟩
  have hlast : ∀ m : Mem, mospfLsas m 0 (array.2 + 1) = mospfLsas m 0 array.2 ++ [mospfLsa m 0 array.2] := by
    intro m
    rw [mospfLsas, List.range_succ, List.map_append]
    rfl
  rw [hlast, Wire.mospfLsas_congr (Mem.agree_write (by omega)), Wire.mospfLsas_congr (Mem.agree_write (by omega)),
    Wire.mospfLsas_congr (Mem.agree_write (by omega))]
  refine congrArg (mospfLsas array.1 0 array.2 ++ [·]) ?_
  simp (disch := omega) only [mospfLsa, Nat.zero_add, Mem.load32_write, Mem.load32_store32, ntohl_ntohl]

/-- Elements that fit are written one after the other. -/
theorem foldlM_setLsa (lsas : List MospfLsa) (h : array.2 + lsas.length ≤ size) :
    ∃ m, lsas.foldlM (fun array lsa => setLsa size array lsa.network lsa.mask lsa.rid) array =
        some (m, array.2 + lsas.length) ∧
      mospfLsas m 0 (array.2 + lsas.length) = mospfLsas array.1 0 array.2 ++ lsas := by
  induction lsas generalizing array with
  | nil => exact ⟨array.1, rfl, (List.append_nil _).symm⟩
  | cons lsa rest ih =>
    rw [List.length_cons] at h ⊢
    have hroom : array.2 < size := by omega
    obtain ⟨m, hset, hm⟩ := setLsa_spec hroom lsa
    obtain ⟨m', hrest, hm'⟩ := @ih (m, array.2 + 1) (by simp only; omega)
    refine ⟨m', ?_, ?_⟩
    · rw [List.foldlM_cons, hset]
      simp only [Option.bind_eq_bind, Option.bind_some, hrest]
      rw [Nat.add_assoc, Nat.add_comm 1]
    · rw [Nat.add_comm rest.length, ← Nat.add_assoc, hm', hm, List.append_assoc]
      rfl

/-- With neighbours counted right, an interface sets just its own elements. -/
theorem fillIface_eq (h : iface.numNbr = iface.nbrList.length) :
    fillIface size array iface =
      (ifaceLsas iface).foldlM (fun array lsa => setLsa size array lsa.network lsa.mask lsa.rid) array := by
  unfold fillIface ifaceLsas
  by_cases hnone : iface.nbrList = []
  · rw [if_pos (by rw [h, hnone]; rfl), if_pos hnone, List.foldlM_cons]
    cases setLsa size array (iface.ip &&& iface.mask) iface.mask 0 <;> rfl
  · have hlen := List.length_pos_iff.mpr hnone
    rw [if_neg (by omega), if_neg hnone, List.foldlM_map]

theorem length_ifaceLsas (h : iface.numNbr = iface.nbrList.length) :
    ((ifaceLsas iface).length : Int) = if iface.numNbr = 0 then 1 else iface.numNbr := by
  unfold ifaceLsas
  by_cases hnone : iface.nbrList = []
  · rw [if_pos hnone, if_pos (by rw [h, hnone]; rfl)]
    rfl
  · have hlen := List.length_pos_iff.mpr hnone
    rw [if_neg hnone, if_neg (by omega), List.length_map, h]

/-- `nbr_num` is the number of LSAs. -/
theorem nbrNum_eq (h : d.Counted) : d.nbrNum = d.advertised.length := by
  have hsum : ∀ ifaces : List IfaceInfo, (∀ iface ∈ ifaces, iface.numNbr = iface.nbrList.length) →
      (ifaces.map fun iface => if iface.numNbr = 0 then 1 else iface.numNbr).sum =
        ((ifaces.flatMap ifaceLsas).length : Int) := by
    intro ifaces hifaces
    induction ifaces with
    | nil => rfl
    | cons iface rest ih =>
      have hfirst := length_ifaceLsas (hifaces iface List.mem_cons_self)
      have hrest := ih fun other hother => hifaces other (List.mem_cons_of_mem _ hother)
      rw [List.map_cons, List.sum_cons, List.flatMap_cons, List.length_append, Int.natCast_add, hfirst, hrest]
  exact hsum d.ifaceList h

/-- The array holds just the LSAs that are to be advertised, and no write is beyond it. -/
theorem fillArray_spec (h : d.Counted) :
    ∃ array, d.fillArray = some array ∧ mospfLsas array.1 0 d.advertised.length = d.advertised := by
  have hflat : ∀ (size : Nat) (ifaces : List IfaceInfo) (array : Mem × Nat),
      (∀ iface ∈ ifaces, iface.numNbr = iface.nbrList.length) →
      ifaces.foldlM (fillIface size) array = (ifaces.flatMap ifaceLsas).foldlM
        (fun array lsa => setLsa size array lsa.network lsa.mask lsa.rid) array := by
    intro size ifaces array hifaces
    induction ifaces generalizing array with
    | nil => rfl
    | cons iface rest ih =>
      rw [List.foldlM_cons, List.flatMap_cons, List.foldlM_append,
        fillIface_eq (hifaces iface List.mem_cons_self)]
      exact bind_congr fun array => ih array fun other hother => hifaces other (List.mem_cons_of_mem _ hother)
  obtain ⟨m, hfill, hm⟩ := @foldlM_setLsa (d.advertised.length + 1) (fun _ => 0, 0) d.advertised
    (by simp only; omega)
  have hsize : (d.nbrNum + 1).toNat = d.advertised.length + 1 := by
    rw [nbrNum_eq h]
    omega
  refine ⟨(m, 0 + d.advertised.length), ?_, ?_⟩
  · rw [fillArray, hsize, hflat _ _ _ h]
    exact hfill
  · rw [Nat.zero_add] at hm
    exact hm

/-! ### What is sent -/

/-- What `ip_init_hdr` is to do: write the header, with the checksum over it, and nothing else. -/
def InitialisesIp (ipInit : U16 → Mem → Nat → U32 → U32 → U16 → U8 → Mem) : Prop :=
  ∀ id m ip saddr daddr len proto,
    IpInitialised checksum m ip saddr daddr len proto (ipInit id m ip saddr daddr len proto)

/-- The LSU of a daemon to one neighbour. -/
def lsuTo (d : Daemon) (target : U32 × U32) : LsuPacket where
  saddr := target.1
  daddr := target.2
  rid := d.routerId
  seq := d.sequenceNum
  ttl := maxLsuTtl
  nadv := BitVec.ofNat 32 d.advertised.length
  lsas := d.advertised

section Library

variable {ipInit : U16 → Mem → Nat → U32 → U32 → U16 → U8 → Mem}

/-- The frame for a neighbour holds the LSU to it. -/
theorem lsuFrame_holds (hinit : InitialisesIp ipInit) (id : U16) (hcounted : d.Counted)
    (hfits : 44 + 12 * d.advertised.length < 65536) {array : Mem}
    (harray : mospfLsas array 0 d.advertised.length = d.advertised) (target : U32 × U32) :
    Wire.Holds d.areaId (lsuFrame ipInit id d array target) (d.lsuTo target) := by
  have hlen : (etherHdrSize + ipBaseHdrSize + mospfHdrSize + mospfLsuSize + d.nbrNum * mospfLsaSize : Int) =
      (etherHdrSize + 44 + 12 * d.advertised.length : Nat) := by
    rw [nbrNum_eq hcounted]
    simp only [ipBaseHdrSize, mospfHdrSize, mospfLsuSize, mospfLsaSize]
    omega
  have htot : BitVec.ofInt 16 ((etherHdrSize + 44 + 12 * d.advertised.length : Nat) - etherHdrSize : Int) =
      BitVec.ofNat 16 (44 + 12 * d.advertised.length) := by
    rw [← BitVec.ofInt_natCast]
    congr 1
    omega
  have hmospf : BitVec.ofInt 16
        ((etherHdrSize + 44 + 12 * d.advertised.length : Nat) - etherHdrSize - ipBaseHdrSize : Int) =
      BitVec.ofNat 16 (24 + 12 * d.advertised.length) := by
    rw [← BitVec.ofInt_natCast]
    congr 1
    simp only [ipBaseHdrSize]
    omega
  have hbytes : (d.nbrNum * mospfLsaSize).toNat = 12 * d.advertised.length := by
    rw [nbrNum_eq hcounted]
    simp only [mospfLsaSize]
    omega
  have hnadv : BitVec.ofInt 32 d.nbrNum = BitVec.ofNat 32 d.advertised.length := by
    rw [nbrNum_eq hcounted, BitVec.ofInt_natCast]
  simp only [lsuFrame, hlen, htot, hmospf, hbytes, hnadv, Int.toNat_natCast]
  have hcount : (BitVec.ofNat 32 d.advertised.length).toNat = d.advertised.length := by
    rw [BitVec.toNat_ofNat]
    omega
  exact ⟨rfl, (Wire.Fields.of_headers (hinit ..) hcount harray).checksummed hfits⟩

end Library

/-- The daemon as `sending_mospf_lsu` sends it: with the next sequence number. -/
def next (d : Daemon) : Daemon := { d with sequenceNum := d.sequenceNum + 1 }

theorem ifaceLsas_eq (h : iface.numNbr = iface.nbrList.length) : ifaceLsas iface = iface.iface.lsas := by
  unfold ifaceLsas Iface.lsas
  by_cases hnone : iface.nbrList = []
  · have hzero : iface.iface.numNbr = 0 := by
      rw [IfaceInfo.iface, h, hnone]
      rfl
    rw [if_pos hnone, if_pos hzero]
    rfl
  · have hpos : iface.iface.numNbr ≠ 0 := by
      have hlen := List.length_pos_iff.mpr hnone
      show iface.numNbr.toNat ≠ 0
      omega
    rw [if_neg hnone, if_neg hpos, IfaceInfo.iface, List.map_map]
    rfl

/-- What a daemon is to advertise is the array of the packets it sends. -/
theorem advertised_eq (h : d.Counted) : d.advertised = lsaArray d.inst.ifaceList := by
  have hinst : ∀ iface ∈ d.inst.ifaceList, iface.numNbr = iface.nbrList.length := by
    intro _ hiface
    obtain ⟨iface, hmem, rfl⟩ := List.mem_map.mp hiface
    rw [IfaceInfo.iface, List.length_map, h iface hmem, Int.toNat_natCast]
  rw [lsaArray_eq hinst, inst, List.flatMap_map, advertised]
  exact List.flatMap_congr fun iface hiface => ifaceLsas_eq (h iface hiface)

/-- The packets that are sent, by target. -/
theorem sent_eq (h : d.Counted) : (Mospf.sendingMospfLsu d.inst).2 = d.next.targets.map d.next.lsuTo := by
  have hcount : Mospf.nbrNum d.inst.ifaceList = d.advertised.length := by
    rw [← length_lsaArray, advertised_eq h]
  simp only [Mospf.sendingMospfLsu, hcount, ← advertised_eq h]
  rw [inst, List.flatMap_map, targets, List.map_flatMap]
  refine List.flatMap_congr fun iface _ => ?_
  rw [IfaceInfo.iface, List.map_map, List.map_map]
  rfl

/-! ### Neighbours -/

/-- What holds of the daemon at all times. -/
structure Inv (d : Daemon) : Prop where
  counted : d.Counted
  areaId : d.areaId = 0

/-- A call that went as it should: it has a frame for each neighbour, and they hold the packets
to be sent, one by one. -/
structure Sound (c : Sending) : Prop where
  inv : c.daemon.Inv
  length : c.frames.length = c.daemon.targets.length
  holds : 44 + 12 * c.daemon.advertised.length < 65536 →
    List.Forall₂ (Wire.Holds 0) c.frames (Mospf.sendingMospfLsu c.daemon.inst).2

/-- Nothing was written beyond an array, and all calls went as they should. -/
def Goes (r : Outcome) : Prop := ∃ d calls, r = some (d, calls) ∧ d.Inv ∧ ∀ c ∈ calls, Sound c

variable {ipInit : U16 → Mem → Nat → U32 → U32 → U16 → U8 → Mem} {r : Outcome} {i j n : Nat}

theorem Goes.of_inv (h : d.Inv) : Goes (some (d, [])) := ⟨d, [], rfl, h, nofun⟩

theorem Goes.andThen (h : Goes r) {next : Daemon → Outcome} (hnext : ∀ d, d.Inv → Goes (next d)) :
    Goes (r.andThen next) := by
  obtain ⟨d, calls, rfl, hd, hcalls⟩ := h
  obtain ⟨d', calls', hd', hinv', hcalls'⟩ := hnext d hd
  refine ⟨d', calls ++ calls', ?_, hinv', ?_⟩
  · rw [Outcome.andThen, hd']
    rfl
  · intro c hc
    rcases List.mem_append.mp hc with hc | hc
    · exact hcalls c hc
    · exact hcalls' c hc

/-- **`sending_mospf_lsu`** fills its array within bounds, and each of its frames holds the LSU. -/
theorem sendingMospfLsu_sends (hinit : InitialisesIp ipInit) (h : d.Inv) :
    ∃ d' frames, sendingMospfLsu ipInit d = some (d', [⟨d, frames⟩]) ∧ d'.Inv ∧ Sound ⟨d, frames⟩ := by
  obtain ⟨array, hfill, harray⟩ := fillArray_spec h.counted
  let frames := d.next.targets.mapIdx fun k target => lsuFrame ipInit (d.rand k) d.next array.1 target
  refine ⟨{ d.next with rand := fun k => d.rand (frames.length + k) }, frames, ?_, ⟨h.counted, h.areaId⟩, ?_⟩
  · rw [sendingMospfLsu, hfill]
    rfl
  · refine ⟨h, List.length_mapIdx, fun hfits => ?_⟩
    have hlen : frames.length = (d.next.targets.map d.next.lsuTo).length := by
      rw [List.length_mapIdx, List.length_map]
    rw [sent_eq h.counted]
    refine List.forall₂_iff_get.mpr ⟨hlen, fun k hk hk' => ?_⟩
    have hholds := @lsuFrame_holds d.next ipInit hinit (d.rand k) h.counted hfits _ harray
    have harea : d.next.areaId = 0 := h.areaId
    rw [harea] at hholds
    show Wire.Holds 0 frames[k] (d.next.targets.map d.next.lsuTo)[k]
    rw [List.getElem_mapIdx, List.getElem_map]
    exact hholds _

theorem sendingMospfLsu_goes (hinit : InitialisesIp ipInit) (h : d.Inv) : Goes (sendingMospfLsu ipInit d) := by
  obtain ⟨d', frames, hsends, hinv, hsound⟩ := sendingMospfLsu_sends hinit h
  refine ⟨d', _, hsends, hinv, fun c hc => ?_⟩
  rw [List.mem_singleton.mp hc]
  exact hsound

theorem length_refresh {nbrIp : U32} {l l' : List NbrEntry} (h : refresh nbrIp l = some l') :
    l'.length = l.length := by
  induction l generalizing l' with
  | nil => cases h
  | cons nbr rest ih =>
    unfold refresh at h
    split at h
    · cases h
      rfl
    · obtain ⟨rest', hrest, rfl⟩ := Option.map_eq_some_iff.mp h
      rw [List.length_cons, List.length_cons, ih hrest]

/-- An interface that is counted right in place of another. -/
theorem Inv.set (h : d.Inv) (hiface : iface.numNbr = iface.nbrList.length) (i : Nat) :
    Inv { d with ifaceList := d.ifaceList.set i iface } where
  counted := by
    intro other hother
    rcases List.mem_or_eq_of_mem_set hother with hold | rfl
    · exact h.counted other hold
    · exact hiface
  areaId := h.areaId

/-- A hello counts the neighbour that it adds. -/
theorem handleMospfHello_goes (hinit : InitialisesIp ipInit) (h : d.Inv) (i : Nat) (packet : Mem) :
    Goes (handleMospfHello ipInit d i packet) := by
  unfold handleMospfHello
  cases hi : d.ifaceList[i]? with
  | none => exact .of_inv h
  | some iface =>
    have hiface := h.counted iface (List.mem_of_getElem? hi)
    simp only
    cases hfound : refresh (helloNbr packet).nbrIp iface.nbrList with
    | some nbrList =>
      refine .of_inv (h.set ?_ i)
      rw [length_refresh hfound]
      exact hiface
    | none =>
      refine sendingMospfLsu_goes hinit (h.set ?_ i)
      simp only [List.length_append, List.length_singleton, hiface]
      rfl

/-- A neighbour's turn keeps count. -/
theorem ageNbr_counted (h : iface.numNbr = iface.nbrList.length) (j : Nat) :
    (ageNbr iface j).1.numNbr = (ageNbr iface j).1.nbrList.length := by
  unfold ageNbr
  cases hj : iface.nbrList[j]? with
  | none => exact h
  | some nbr =>
    obtain ⟨hlt, -⟩ := List.getElem?_eq_some_iff.mp hj
    simp only
    split
    · simp only [List.length_eraseIdx_of_lt hlt, h]
      omega
    · simp only [List.length_set, h]

theorem checkNbrs_goes (hinit : InitialisesIp ipInit) (h : d.Inv) : Goes (checkNbrs ipInit i j n d) := by
  induction n generalizing j d with
  | zero => exact .of_inv h
  | succ n ih =>
    unfold checkNbrs
    cases hi : d.ifaceList[i]? with
    | none => exact .of_inv h
    | some iface =>
      have hset := h.set (ageNbr_counted (h.counted iface (List.mem_of_getElem? hi)) j) i
      simp only
      split
      · exact (sendingMospfLsu_goes hinit hset).andThen fun d' hd' => ih hd'
      · exact ih hset

theorem checkIfaces_goes (hinit : InitialisesIp ipInit) (h : d.Inv) : Goes (checkIfaces ipInit i n d) := by
  induction n generalizing i d with
  | zero => exact .of_inv h
  | succ n ih => exact (checkNbrs_goes hinit h).andThen fun d' hd' => ih hd'

/-! ### Forwarding -/

variable {f g : Frame} {areaId : U32} {p : LsuPacket} {k : Nat}

/-- A copy with new addresses and checksums holds the packet with these addresses. -/
theorem forwardFrame_holds {m : Mem} {len : Nat} (h : Wire.Fields areaId m etherHdrSize p)
    (hlen : len = etherHdrSize + 44 + 12 * p.lsas.length) (hfits : 44 + 12 * p.lsas.length < 65536)
    (saddr daddr : U32) : Wire.Holds areaId (forwardFrame m len saddr daddr) { p with saddr, daddr } where
  len := hlen
  datagram := by
    have haddrs := h.store_addrs saddr daddr
    have hdatagram := (haddrs.checksummed hfits).store_ipChecksum
    simp only [forwardFrame, haddrs.packetToMospfHdr_eq]
    exact hdatagram _

/-- The copies of a packet, by interface and neighbour. -/
theorem forward_inst (d : Daemon) (p : LsuPacket) : forward d.inst.ifaceList p =
    d.ifaceList.flatMap fun iface => (iface.nbrList.filter fun nbr => nbr.nbrId ≠ p.rid).map fun nbr =>
      { p with saddr := iface.ip, daddr := nbr.nbrIp } := by
  rw [forward, inst, List.flatMap_map]
  refine List.flatMap_congr fun iface _ => ?_
  rw [IfaceInfo.iface, List.filter_map, List.map_map]
  rfl

/-- `handle_mospf_lsu` does to a frame what it does to the packet in it. -/
theorem handleMospfLsu_refines (h : Wire.Holds areaId f p) (d : Daemon) :
    (d.handleMospfLsu f).1.mospfDb = (Mospf.handleMospfLsu d.inst d.mospfDb p).1 ∧
      List.Forall₂ (Wire.Holds areaId) (d.handleMospfLsu f).2 (Mospf.handleMospfLsu d.inst d.mospfDb p).2 := by
  have hfields := h.datagram.fields
  have hlsu : Wire.packetToMospfHdr f.mem + mospfHdrSize = etherHdrSize + 36 := by
    rw [hfields.packetToMospfHdr_eq]
    rfl
  have httl : (mospfLsuHdr f.mem (etherHdrSize + 36)).ttl = p.ttl := by rw [hfields.lsuHeader]
  have haged := hfields.store_ttl (p.ttl - 1)
  have hagedTtl : (mospfLsuHdr (f.mem.store8 (etherHdrSize + 36 + 2) (p.ttl - 1)) (etherHdrSize + 36)).ttl =
      p.ttl - 1 := by rw [haged.lsuHeader]
  have hrid : ntohl (mospfHdr (f.mem.store8 (etherHdrSize + 36 + 2) (p.ttl - 1))
      (Wire.packetToMospfHdr f.mem)).rid = p.rid := by
    rw [hfields.packetToMospfHdr_eq, haged.mospfHeader, ntohl_ntohl]
  unfold handleMospfLsu Mospf.handleMospfLsu
  rw [hfields.lsuPacket_eq]
  cases updateDb d.mospfDb p with
  | none => exact ⟨rfl, .nil⟩
  | some mospfDb =>
    refine ⟨rfl, ?_⟩
    simp only [hlsu, httl, hagedTtl, hrid]
    by_cases hlive : 0 < p.ttl - 1
    · rw [if_pos hlive, if_pos hlive, forward_inst]
      refine List.rel_flatMap (List.forall₂_same.mpr fun iface _ => rfl) ?_
      intro iface iface' heq
      cases heq
      refine List.forall₂_map_left_iff.mpr (List.forall₂_map_right_iff.mpr (List.forall₂_same.mpr ?_))
      intro nbr _
      exact forwardFrame_holds haged h.len h.datagram.fits iface.ip nbr.nbrIp
    · rw [if_neg hlive, if_neg hlive]
      exact .nil

/-- What `handle_mospf_lsu` sends on holds the packet with a TTL that is one less, and not zero. -/
theorem handleMospfLsu_holds (h : Wire.Holds areaId f p) (d : Daemon) (hg : g ∈ (d.handleMospfLsu f).2) :
    ∃ saddr daddr, Wire.Holds areaId g { p with saddr, daddr, ttl := p.ttl - 1 } ∧ 0 < p.ttl - 1 := by
  obtain ⟨copy, hcopy, hholds⟩ := Wire.exists_holds (handleMospfLsu_refines h d).2 hg
  unfold Mospf.handleMospfLsu at hcopy
  cases hupdate : updateDb d.mospfDb p with
  | none =>
    rw [hupdate] at hcopy
    cases hcopy
  | some mospfDb =>
    simp only [hupdate] at hcopy
    by_cases hlive : 0 < p.ttl - 1
    · rw [if_pos hlive] at hcopy
      obtain ⟨iface, -, nbr, -, -, rfl⟩ := mem_forward.mp hcopy
      exact ⟨_, _, hholds, hlive⟩
    · rw [if_neg hlive] at hcopy
      cases hcopy

/-- How a frame travels: `k` routers have taken it in, as it came over the link, and sent it on. -/
inductive Carried (f : Frame) : Nat → Frame → Prop
  | sent : Carried f 0 f
  | forwarded {k : Nat} {g copy : Frame} {m : Mem} (d : Daemon) (hg : Carried f k g)
      (hm : Wire.ReceivedAs m g) (hcopy : copy ∈ (d.handleMospfLsu ⟨m, g.len⟩).2) : Carried f (k + 1) copy

/-- After `k` hops a frame holds the same LSU, with a TTL that is `k` less and has not run out. -/
theorem Carried.holds (h : Carried f k g) (hf : Wire.Holds areaId f p) (hpos : 0 < p.ttl.toNat) :
    ∃ saddr daddr ttl, Wire.Holds areaId g { p with saddr, daddr, ttl } ∧ 0 < ttl.toNat ∧
      ttl.toNat + k = p.ttl.toNat := by
  induction h with
  | sent => exact ⟨p.saddr, p.daddr, p.ttl, hf, hpos, rfl⟩
  | forwarded d _ hm hcopy ih =>
    obtain ⟨saddr, daddr, ttl, hg, hleft, httl⟩ := ih
    obtain ⟨saddr', daddr', hholds, hless⟩ := handleMospfLsu_holds (hg.received hm) d hcopy
    have hless : 0 < (ttl - 1).toNat := hless
    have hone : (ttl - 1).toNat = ttl.toNat - 1 := by
      rw [BitVec.toNat_sub_of_le]
      · rfl
      · exact hleft
    exact ⟨saddr', daddr', ttl - 1, hholds, hless, by omega⟩

/-- A router of the area takes what holds an LSU for one. -/
theorem handleMospfPacket_holds {m : Mem} {len : Nat} (h : Wire.Holds areaId ⟨m, len⟩ p) {d : Daemon}
    (hd : d.areaId = areaId) (ipInit : U16 → Mem → Nat → U32 → U32 → U16 → U8 → Mem) (i : Nat) :
    d.handleMospfPacket ipInit i ⟨m, len⟩ =
      some ((d.handleMospfLsu ⟨m, len⟩).1, [], (d.handleMospfLsu ⟨m, len⟩).2) := by
  have htype : (mospfHdr m (Wire.packetToMospfHdr m)).type = mospfTypeLsu := by
    rw [h.datagram.fields.packetToMospfHdr_eq, h.datagram.fields.mospfHeader]
  have hhello : mospfTypeLsu ≠ mospfTypeHello := by decide
  unfold handleMospfPacket
  rw [if_pos (by rw [hd]; exact h.datagram.accepted), htype, if_neg hhello, if_pos rfl]

/-! ### Runs -/

/-- What happens to a daemon: `handle_mospf_hello` on an interface, a pass of
`checking_nbr_thread`, a turn of `sending_mospf_lsu_thread`, `handle_mospf_lsu`. -/
inductive Event
  | hello (i : Nat) (packet : Mem)
  | tick
  | send
  | lsu (packet : Frame)

section Library

variable (ipInit : U16 → Mem → Nat → U32 → U32 → U16 → U8 → Mem)

def step (d : Daemon) : Event → Outcome
  | .hello i packet => d.handleMospfHello ipInit i packet
  | .tick => d.checkingNbr ipInit
  | .send => d.sendingMospfLsu ipInit
  | .lsu packet => some ((d.handleMospfLsu packet).1, [])

/-- A run, with all calls of `sending_mospf_lsu` in it. -/
def run : List Event → Daemon → Outcome
  | [], d => some (d, [])
  | e :: es, d => (d.step ipInit e).andThen (run es)

end Library

theorem handleMospfLsu_ifaceList (d : Daemon) (packet : Frame) :
    (d.handleMospfLsu packet).1.ifaceList = d.ifaceList ∧ (d.handleMospfLsu packet).1.areaId = d.areaId := by
  unfold handleMospfLsu
  split <;> exact ⟨rfl, rfl⟩

theorem step_goes (hinit : InitialisesIp ipInit) (h : d.Inv) (e : Event) : Goes (d.step ipInit e) := by
  cases e with
  | hello i packet => exact handleMospfHello_goes hinit h i packet
  | tick => exact checkIfaces_goes hinit h
  | send => exact sendingMospfLsu_goes hinit h
  | lsu packet =>
    obtain ⟨hifaces, harea⟩ := handleMospfLsu_ifaceList d packet
    refine .of_inv ⟨?_, harea.trans h.areaId⟩
    rw [Counted, hifaces]
    exact h.counted

theorem run_goes (hinit : InitialisesIp ipInit) (h : d.Inv) (es : List Event) : Goes (d.run ipInit es) := by
  induction es generalizing d with
  | nil => exact .of_inv h
  | cons e es ih => exact (step_goes hinit h e).andThen fun d' hd' => ih hd'

theorem mospfInit_inv (iface : U32 × U32) (ifaces : List (U32 × U32)) (rand : Nat → U16) :
    Inv (mospfInit iface ifaces rand) where
  counted := by
    intro info hinfo
    obtain ⟨_, -, rfl⟩ := List.mem_map.mp hinfo
    rfl
  areaId := rfl

/-! ### The codec -/

/-- The number of LSAs in an update: an interface without neighbours counts once. -/
def lsaNum (d : Daemon) : Nat := (d.ifaceList.map fun iface => max 1 iface.numNbr.toNat).sum

theorem length_advertised (h : d.Counted) : d.advertised.length = d.lsaNum := by
  rw [advertised, List.length_flatMap, lsaNum]
  congr 1
  refine List.map_congr_left fun iface hiface => ?_
  have hcounted := h iface hiface
  have hlen := length_ifaceLsas hcounted
  split at hlen
  · omega
  · omega

/-- A newer LSU is held from then on as the packet has it. -/
theorem handleMospfLsu_stores (h : Wire.Holds areaId f p) (d : Daemon)
    (hnewer : ∀ entry, entryOf d.mospfDb p.rid = some entry → entry.seq < p.seq) :
    ∃ entry, entryOf (d.handleMospfLsu f).1.mospfDb p.rid = some entry ∧ entry.seq = p.seq ∧
      entry.nadv = p.nadv.toInt ∧ entry.array.take p.lsas.length = p.lsas := by
  obtain ⟨db, hdb⟩ := exists_updateDb hnewer
  have hheld : (d.handleMospfLsu f).1.mospfDb = db := by
    simp only [handleMospfLsu, h.datagram.fields.lsuPacket_eq, hdb]
  have hadverts : p.adverts = p.lsas := by
    rw [LsuPacket.adverts, h.datagram.fields.nadv, List.take_length]
  rw [hheld, (updateDb_some hdb).taken]
  refine ⟨_, rfl, ?_, ?_, ?_⟩
  · cases entryOf d.mospfDb p.rid <;> rfl
  · cases entryOf d.mospfDb p.rid <;> rfl
  · cases entryOf d.mospfDb p.rid with
    | none =>
      show p.adverts.take _ = _
      rw [hadverts, List.take_length]
    | some entry =>
      show (p.adverts ++ _).take _ = _
      rw [hadverts, List.take_left]

/-- What a receiver makes of a packet, `k` hops after the call that built it: any daemon lets it
through to `handle_mospf_lsu`, which reads the router id, the sequence number, the number of
LSAs and the LSAs of the sender off it, and a TTL that is `k` less; and where it is newer than
the entry held, and the entry has room for it, this is what is stored. -/
structure Decoded (ipInit : U16 → Mem → Nat → U32 → U32 → U16 → U8 → Mem) (c : Sending) (k : Nat)
    (packet : Frame) : Prop where
  accepted : ∀ (d : Daemon) (i : Nat), d.areaId = 0 → d.handleMospfPacket ipInit i packet =
    some ((d.handleMospfLsu packet).1, [], (d.handleMospfLsu packet).2)
  rid : (Wire.lsuPacket packet.mem).rid = c.daemon.routerId
  seq : (Wire.lsuPacket packet.mem).seq = c.daemon.sequenceNum + 1
  ttl : (Wire.lsuPacket packet.mem).ttl.toNat + k = 255
  nadv : (Wire.lsuPacket packet.mem).nadv.toNat = c.daemon.lsaNum
  lsas : (Wire.lsuPacket packet.mem).lsas = c.daemon.advertised
  stored : ∀ d : Daemon, (∀ entry, entryOf d.mospfDb c.daemon.routerId = some entry →
      entry.seq < c.daemon.sequenceNum + 1 ∧ c.daemon.lsaNum ≤ entry.allocated) →
    ∃ entry, entryOf (d.handleMospfLsu packet).1.mospfDb c.daemon.routerId = some entry ∧
      entry.seq = c.daemon.sequenceNum + 1 ∧ entry.nadv = c.daemon.lsaNum ∧
      entry.array.take c.daemon.lsaNum = c.daemon.advertised

/-- A frame that holds the LSU of a call is decoded, wherever it is carried. -/
theorem Sound.decoded {c : Sending} (h : Sound c) (hfits : etherHdrSize + 44 + 12 * c.daemon.lsaNum < 65536)
    (hf : f ∈ c.frames) (hg : Carried f k g) {m : Mem} (hm : Wire.ReceivedAs m g)
    (ipInit : U16 → Mem → Nat → U32 → U32 → U16 → U8 → Mem) : Decoded ipInit c k ⟨m, g.len⟩ := by
  have hlen := length_advertised h.inv.counted
  obtain ⟨sent, hsent, hholds⟩ := Wire.exists_holds (h.holds (by omega)) hf
  rw [sent_eq h.inv.counted] at hsent
  obtain ⟨target, -, rfl⟩ := List.mem_map.mp hsent
  obtain ⟨saddr, daddr, ttl, hcarried, -, httl⟩ := hg.holds hholds (show 0 < maxLsuTtl.toNat by decide)
  have hreceived := hcarried.received hm
  have hread := hreceived.datagram.fields.lsuPacket_eq
  have hnadv : (BitVec.ofNat 32 c.daemon.next.advertised.length).toNat = c.daemon.lsaNum := by
    rw [BitVec.toNat_ofNat, ← hlen]
    show c.daemon.advertised.length % _ = _
    omega
  refine ⟨fun d i hd => handleMospfPacket_holds hreceived hd ipInit i, ?_, ?_, ?_, ?_, ?_, ?_⟩
  · rw [hread]
    rfl
  · rw [hread]
    rfl
  · rw [hread]
    exact httl
  · rw [hread]
    exact hnadv
  · rw [hread]
    rfl
  · intro d hroom
    obtain ⟨entry, hentry, hseq, hcount, harray⟩ := handleMospfLsu_stores hreceived d
      fun entry hentry => (hroom entry hentry).1
    refine ⟨entry, hentry, hseq, ?_, ?_⟩
    · have hsmall : 2 * (BitVec.ofNat 32 c.daemon.next.advertised.length).toNat < 2 ^ 32 := by omega
      rw [hcount, ← hnadv]
      exact BitVec.toInt_eq_toNat_of_lt hsmall
    · rw [← hlen]
      exact harray

/-- **The LSU codec.** Over every run of hellos, passes over the neighbours, updates sent and
updates received, `num_nbr` is the length of `nbr_list` on every interface and no call of
`sending_mospf_lsu` writes beyond its array. A turn of the sending thread is one call, and a call
builds a packet for each neighbour. Each packet that a call builds, and each copy of it that
`handle_mospf_lsu` sends on at any number of hops, passes the checks of `handle_mospf_packet`
and is decoded into what the sender advertises, as long as it is shorter than 65536 bytes. -/
theorem lsu_codec {ipInit : U16 → Mem → Nat → U32 → U32 → U16 → U8 → Mem} (hinit : InitialisesIp ipInit)
    (iface : U32 × U32) (ifaces : List (U32 × U32)) (rand : Nat → U16) (es : List Event) :
    ∃ d calls, (mospfInit iface ifaces rand).run ipInit es = some (d, calls) ∧ d.Counted ∧ d.areaId = 0 ∧
      (∃ d' frames, d.step ipInit .send = some (d', [⟨d, frames⟩])) ∧
      ∀ c ∈ calls, c.daemon.Counted ∧ c.frames.length = c.daemon.targets.length ∧
        (etherHdrSize + 44 + 12 * c.daemon.lsaNum < 65536 →
          ∀ f ∈ c.frames, ∀ k g, Carried f k g → ∀ m, Wire.ReceivedAs m g → Decoded ipInit c k ⟨m, g.len⟩) := by
  obtain ⟨d, calls, hrun, hinv, hcalls⟩ := run_goes hinit (mospfInit_inv iface ifaces rand) es
  obtain ⟨d', frames, hsends, -, -⟩ := sendingMospfLsu_sends hinit hinv
  refine ⟨d, calls, hrun, hinv.counted, hinv.areaId, ⟨d', frames, hsends⟩, fun c hc => ?_⟩
  refine ⟨(hcalls c hc).inv.counted, (hcalls c hc).length, ?_⟩
  intro hfits f hf k g hg m hm
  exact (hcalls c hc).decoded hfits hf hg hm ipInit

/-- A hello of router 10.0.1.2. -/
def helloFrame : Mem := fun a =>
  [1, 0, 0x5e, 0, 0, 5, 8, 8, 8, 8, 8, 8, 8, 0, 0x45, 0, 0, 44, 0, 1, 0x40, 0, 1, 90, 0, 0, 10, 0, 1, 2, 224, 0, 0, 5,
    2, 1, 0, 24, 10, 0, 1, 2, 0, 0, 0, 0, 0, 0, 0, 0, 255, 255, 255, 0, 0, 5, 0, 0].getD a 0

/-- A router with two interfaces that gets a neighbour, with the `ip_init_hdr` of the other
experiments: the hello and the turn make a call each, with a packet to the neighbour. -/
theorem hello_codec :
    ∃ d calls, (mospfInit (0x0a000101, 0xffffff00) [(0x0a000201, 0xffffff00)] fun _ => 0).run
        (ipInitHdr checksum) [.hello 0 helloFrame, .tick, .send] = some (d, calls) ∧ calls.length = 2 ∧
      ∀ c ∈ calls, c.daemon.advertised =
          [⟨0x0a000100, 0xffffff00, 0x0a000102⟩, ⟨0x0a000200, 0xffffff00, 0⟩] ∧
        c.frames.length = 1 ∧ ∀ f ∈ c.frames, Decoded (ipInitHdr checksum) c 0 f := by
  obtain ⟨d, calls, hrun, -, -, -, hcalls⟩ :=
    lsu_codec (ipInitHdr_initialises checksum) (0x0a000101, 0xffffff00) [(0x0a000201, 0xffffff00)] (fun _ => 0)
      [.hello 0 helloFrame, .tick, .send]
  have hviews : ((mospfInit (0x0a000101, 0xffffff00) [(0x0a000201, 0xffffff00)] fun _ => 0).run
      (ipInitHdr checksum) [.hello 0 helloFrame, .tick, .send]).map
        (fun r => r.2.map fun c => (c.daemon.advertised, c.daemon.targets.length, c.daemon.lsaNum)) =
      some (List.replicate 2 ([⟨0x0a000100, 0xffffff00, 0x0a000102⟩, ⟨0x0a000200, 0xffffff00, 0⟩], 1, 2)) := by
    decide +kernel
  rw [hrun, Option.map_some, Option.some.injEq, List.eq_replicate_iff] at hviews
  obtain ⟨htwo, hsame⟩ := hviews
  refine ⟨d, calls, hrun, by simpa using htwo, fun c hc => ?_⟩
  obtain ⟨hadvertised, hsizes⟩ := Prod.mk.inj (hsame _ (List.mem_map_of_mem hc))
  obtain ⟨htargets, hnum⟩ := Prod.mk.inj hsizes
  obtain ⟨-, hlength, hdecoded⟩ := hcalls c hc
  refine ⟨hadvertised, hlength.trans htargets, fun f hf => ?_⟩
  exact hdecoded (by rw [hnum]; decide) f hf 0 f .sent f.mem fun _ _ _ => rfl

end Daemon

end NetStack.Mospf
