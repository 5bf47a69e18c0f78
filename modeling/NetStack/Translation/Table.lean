import NetStack.ByteOrder

/-! The address translator (`EXP13-NAT/13-nat/nat.c`).

The table is 256 bucket lists of mappings, indexed by a hash of the remote
endpoint, a pool of external ports and a list of DNAT rules. `do_translation`
looks a packet's mapping up in the bucket of its remote end: an outbound packet by
the internal endpoint, an inbound packet by the external one. A packet without a
mapping makes one: outbound with a port from the pool, inbound with whatever the
rules say, or zeros. `nat_timeout` drops idle and finished mappings and returns their
ports. Checksums are recomputed by the source and left out here. -/
namespace NetStack.Translation

/-- `NAT_PORT_MIN`, `NAT_PORT_MAX`. -/
def portMin : Nat := 12345
def portMax : Nat := 23456

/-- `TCP_ESTABLISHED_TIMEOUT`, in seconds. -/
def establishedTimeout : Int := 60

/-- `TCP_FIN`, `TCP_ACK`. -/
def tcpFin : U8 := 0x01#8
def tcpAck : U8 := 0x10#8

/-- The header fields the translator reads and writes, in network byte order. -/
structure Packet where
  saddr : U32
  daddr : U32
  sport : U16
  dport : U16
  seq : U32
  ack : U32
  flags : U8
deriving DecidableEq, Repr

/-- `struct nat_connection`. -/
structure NatConnection where
  internalFin : U8
  externalFin : U8
  internalSeqEnd : U32
  externalSeqEnd : U32
  internalAck : U32
  externalAck : U32
deriving DecidableEq, Repr

/-- `struct nat_mapping`. -/
structure NatMapping where
  internalIp : U32
  internalPort : U16
  externalIp : U32
  externalPort : U16
  updateTime : Int
  conn : NatConnection
deriving DecidableEq, Repr

/-- `struct dnat_rule`. -/
structure DnatRule where
  externalIp : U32
  externalPort : U16
  internalIp : U32
  internalPort : U16
deriving DecidableEq, Repr

/-- `struct nat_table`; of the external interface only its address is used here. -/
structure NatTable where
  mappings : U8 → List NatMapping
  externalIfaceIp : U32
  assignedPorts : U16 → U8
  rules : List DnatRule

/-- The table `nat_init` leaves, with the interface and the rules of the
configuration. -/
def natInit (externalIfaceIp : U32) (rules : List DnatRule) : NatTable :=
  { mappings := fun _ => []
    externalIfaceIp
    assignedPorts := fun _ => 0
    rules }

/-- A mapping fresh from `bzero`. -/
def zeroMapping : NatMapping := ⟨0, 0, 0, 0, 0, ⟨0, 0, 0, 0, 0, 0⟩⟩

/-- `enum packet_dir` without the invalid direction, which never gets this far. -/
inductive Dir where
  | inward
  | outward
deriving DecidableEq, Repr

/-- `hash8`. -/
def hash8 (buf : List U8) : U8 := buf.foldl (· ^^^ ·) 0

/-- The bucket of a remote endpoint: the hash of the bytes of `rmt_set_t`. -/
def bucketOf (addr : U32) (port : U16) : U8 :=
  hash8 (bytes32 (ntohl addr) ++ bytes32 (port.setWidth 32))

/-- The remote endpoint of a packet. -/
def Packet.remote (p : Packet) : Dir → U32 × U16
  | .inward => (ntohl p.saddr, ntohs p.sport)
  | .outward => (ntohl p.daddr, ntohs p.dport)

/-- The first free port of the pool, or 0. -/
def freePort (ports : U16 → U8) : Nat :=
  ((List.range' portMin (portMax - portMin)).find? fun i => ports (BitVec.ofNat 16 i) == 0).getD 0

def setPort (ports : U16 → U8) (q : U16) (v : U8) : U16 → U8 :=
  fun r => if r = q then v else ports r

/-- `assign_port`: the port and the pool afterwards. -/
def assignPort (ports : U16 → U8) : Nat × (U16 → U8) :=
  let i := freePort ports
  (i, if i = 0 then ports else setPort ports (BitVec.ofNat 16 i) 1)

/-- `check_rules`: the last rule for the external endpoint decides. -/
def checkRules (rules : List DnatRule) (m : NatMapping) : NatMapping :=
  rules.foldl (fun m rule =>
    if rule.externalIp = m.externalIp ∧ rule.externalPort = m.externalPort then
      { m with internalIp := rule.internalIp, internalPort := rule.internalPort }
    else m) m

/-- The test of the outbound and of the inbound list walk. -/
def NatMapping.hasInternal (ip : U32) (port : U16) (m : NatMapping) : Bool :=
  m.internalIp == ip && m.internalPort == port

def NatMapping.hasExternal (ip : U32) (port : U16) (m : NatMapping) : Bool :=
  m.externalIp == ip && m.externalPort == port

/-- The first mapping that passes the test updated in place, or `fresh` appended. -/
def upsert (test : NatMapping → Bool) (fresh : NatMapping) (update : NatMapping → NatMapping) :
    List NatMapping → List NatMapping
  | [] => [update fresh]
  | m :: rest => if test m then update m :: rest else m :: upsert test fresh update rest

/-- The statistics an inbound packet leaves. -/
def noteInward (p : Packet) (now : Int) (m : NatMapping) : NatMapping :=
  { m with
    updateTime := now
    conn := { m.conn with
      externalFin := if p.flags = tcpFin then tcpFin else 0
      externalSeqEnd := p.seq
      externalAck := if p.flags = tcpAck then p.ack else m.conn.externalAck } }

/-- The statistics an outbound packet leaves. -/
def noteOutward (p : Packet) (now : Int) (m : NatMapping) : NatMapping :=
  { m with
    updateTime := now
    conn := { m.conn with
      internalFin := if p.flags = tcpFin then tcpFin else 0
      internalSeqEnd := p.seq
      internalAck := if p.flags = tcpAck then p.ack else m.conn.internalAck } }

/-- The mapping an inbound packet makes when it finds none. -/
def NatTable.inwardFresh (nat : NatTable) (p : Packet) : NatMapping :=
  checkRules nat.rules
    { zeroMapping with externalIp := ntohl p.daddr, externalPort := ntohs p.dport }

/-- The mapping an outbound packet makes when it finds none. -/
def NatTable.outwardFresh (nat : NatTable) (p : Packet) : NatMapping :=
  { zeroMapping with
    internalIp := ntohl p.saddr
    externalIp := nat.externalIfaceIp
    internalPort := ntohs p.sport
    externalPort := BitVec.ofNat 16 (assignPort nat.assignedPorts).1 }

def setBucket (mappings : U8 → List NatMapping) (h : U8) (l : List NatMapping) : U8 → List NatMapping :=
  fun k => if k = h then l else mappings k

/-- `do_translation`: the table afterwards and the packet that is sent on. -/
def doTranslation (nat : NatTable) (p : Packet) (dir : Dir) (now : Int) : NatTable × Packet :=
  let hash := bucketOf (p.remote dir).1 (p.remote dir).2
  let bucket := nat.mappings hash
  match dir with
  | .inward =>
    let test := NatMapping.hasExternal (ntohl p.daddr) (ntohs p.dport)
    let entry := (bucket.find? test).getD (nat.inwardFresh p)
    ({ nat with
        mappings := setBucket nat.mappings hash
          (upsert test (nat.inwardFresh p) (noteInward p now) bucket) },
      { p with dport := htons entry.internalPort, daddr := htonl entry.internalIp })
  | .outward =>
    let test := NatMapping.hasInternal (ntohl p.saddr) (ntohs p.sport)
    let entry := (bucket.find? test).getD (nat.outwardFresh p)
    ({ nat with
        mappings := setBucket nat.mappings hash
          (upsert test (nat.outwardFresh p) (noteOutward p now) bucket)
        -- `assign_port` runs only when the walk found no mapping.
        assignedPorts := if (bucket.find? test).isSome then nat.assignedPorts
          else (assignPort nat.assignedPorts).2 },
      { p with sport := htons entry.externalPort, saddr := htonl entry.externalIp })

/-- `is_flow_finished`. -/
def isFlowFinished (conn : NatConnection) : Bool :=
  (conn.internalFin != 0 && conn.externalFin != 0) &&
    decide (conn.externalSeqEnd ≤ conn.internalAck) && decide (conn.internalSeqEnd ≤ conn.externalAck)

/-- What one pass of `nat_timeout` reclaims at time `now`. -/
def expired (now : Int) (m : NatMapping) : Bool :=
  decide (now - m.updateTime > establishedTimeout) || isFlowFinished m.conn

/-- One pass of `nat_timeout`, bucket by bucket. -/
def natTimeout (nat : NatTable) (now : Int) : NatTable :=
  let reclaimed := (List.range 256).flatMap fun i => (nat.mappings (BitVec.ofNat 8 i)).filter (expired now)
  { nat with
    mappings := fun h => (nat.mappings h).filter fun m => !expired now m
    assignedPorts := reclaimed.foldl (fun ports m => setPort ports m.externalPort 0) nat.assignedPorts }

/-- What happens to a translator. -/
inductive Event where
  | outward (p : Packet) (now : Int)
  | inward (p : Packet) (now : Int)
  | timeout (now : Int)
deriving DecidableEq, Repr

def step (nat : NatTable) : Event → NatTable
  | .outward p now => (doTranslation nat p .outward now).1
  | .inward p now => (doTranslation nat p .inward now).1
  | .timeout now => natTimeout nat now

end NetStack.Translation
