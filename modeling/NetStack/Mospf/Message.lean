import NetStack.Ip
import NetStack.Mospf.Lsu

/-! Link-state updates as bytes (`include/mospf_proto.h`, `mospf_proto.c`, `mospf_daemon.c` of
`EXP12-mOSPF/code/12-mopsf`).

`Holds` says that a frame is the encoding of a packet in an area: what is read of its three
headers, the LSAs behind them, and that its checksum is right. A router of the area lets such
a frame through and reads the packet off it (`Datagram.accepted`). -/
namespace NetStack.Mospf

/-- `MOSPF_VERSION`, `MOSPF_TYPE_HELLO`, `MOSPF_TYPE_LSU`, `IPPROTO_MOSPF`. -/
def mospfVersion : U8 := 2
def mospfTypeHello : U8 := 1
def mospfTypeLsu : U8 := 4
def ipprotoMospf : U8 := 90

/-- `MOSPF_HDR_SIZE`, `MOSPF_LSU_SIZE`, `MOSPF_LSA_SIZE`. -/
def mospfHdrSize : Nat := 16
def mospfLsuSize : Nat := 8
def mospfLsaSize : Nat := 12

/-- `struct mospf_hdr`: the fields that are read, less the checksum. -/
structure MospfHdr where
  version : U8
  type : U8
  len : U16
  rid : U32
  aid : U32
deriving DecidableEq, Repr

/-- The header at `mospf`. -/
def mospfHdr (m : Mem) (mospf : Nat) : MospfHdr where
  version := m.load8 mospf
  type := m.load8 (mospf + 1)
  len := m.load16 (mospf + 2)
  rid := m.load32 (mospf + 4)
  aid := m.load32 (mospf + 8)

/-- `struct mospf_lsu`, less the unused byte. -/
structure MospfLsuHdr where
  seq : U16
  ttl : U8
  nadv : U32
deriving DecidableEq, Repr

/-- The header at `lsu`. -/
def mospfLsuHdr (m : Mem) (lsu : Nat) : MospfLsuHdr where
  seq := m.load16 lsu
  ttl := m.load8 (lsu + 2)
  nadv := m.load32 (lsu + 4)

/-- `array[i]` of the `struct mospf_lsa`s at `array`, converted as it is read. -/
def mospfLsa (m : Mem) (array i : Nat) : MospfLsa where
  network := ntohl (m.load32 (array + 12 * i))
  mask := ntohl (m.load32 (array + 12 * i + 4))
  rid := ntohl (m.load32 (array + 12 * i + 8))

/-- The first `n` elements of such an array. -/
def mospfLsas (m : Mem) (array n : Nat) : List MospfLsa := (List.range n).map (mospfLsa m array)

namespace Wire

/-! ### The code -/

/-- `mospf_init_hdr`; the checksum is left as it is. -/
def mospfInitHdr (m : Mem) (mospf : Nat) (type : U8) (len : U16) (rid aid : U32) : Mem :=
  let m := m.store8 mospf mospfVersion
  let m := m.store8 (mospf + 1) type
  let m := m.store16 (mospf + 2) (htons len)
  let m := m.store32 (mospf + 4) (htonl rid)
  let m := m.store32 (mospf + 8) (htonl aid)
  m.store16 (mospf + 14) 0

/-- `mospf_init_lsu`, with `instance->sequence_num`. -/
def mospfInitLsu (sequenceNum : U16) (m : Mem) (lsu : Nat) (nadv : U32) : Mem :=
  let m := m.store16 lsu (htons sequenceNum)
  let m := m.store8 (lsu + 3) 0
  let m := m.store8 (lsu + 2) maxLsuTtl
  m.store32 (lsu + 4) (htonl nadv)

/-- `mospf_checksum`: the field itself counts as zero, and is put back afterwards. -/
def mospfChecksum (m : Mem) (mospf : Nat) : U16 :=
  let m := m.store16 (mospf + 12) 0
  checksum m mospf (ntohs (mospfHdr m mospf).len).toNat 0

/-- Where the handlers look for the mOSPF header: `packet_to_ip_hdr` and `IP_HDR_SIZE` on. -/
def packetToMospfHdr (m : Mem) : Nat := etherHdrSize + (iphdr m etherHdrSize).size

/-- The checks of `handle_mospf_packet`, in a router whose area is `areaId`. -/
def Accepted (areaId : U32) (m : Mem) : Prop :=
  (mospfHdr m (packetToMospfHdr m)).version = mospfVersion ∧
    m.load16 (packetToMospfHdr m + 12) = mospfChecksum m (packetToMospfHdr m) ∧
    ntohl (mospfHdr m (packetToMospfHdr m)).aid = areaId

instance (areaId : U32) (m : Mem) : Decidable (Accepted areaId m) := inferInstanceAs (Decidable (_ ∧ _))

/-- What `handle_mospf_lsu` reads of a packet. -/
def lsuPacket (m : Mem) : LsuPacket :=
  let mospf := packetToMospfHdr m
  let lsu := mospf + mospfHdrSize
  let nadv := ntohl (mospfLsuHdr m lsu).nadv
  { saddr := ntohl (iphdr m etherHdrSize).saddr
    daddr := ntohl (iphdr m etherHdrSize).daddr
    rid := ntohl (mospfHdr m mospf).rid
    seq := ntohs (mospfLsuHdr m lsu).seq
    ttl := (mospfLsuHdr m lsu).ttl
    nadv := nadv
    lsas := mospfLsas m (lsu + mospfLsuSize) nadv.toNat }

/-! ### The parts of a packet -/

variable {m m' : Mem} {ip mospf lsu array n : Nat} {areaId : U32} {p : LsuPacket}

/-- The header is its first twelve bytes. -/
theorem mospfHdr_congr (h : m.Agree m' mospf 12) : mospfHdr m mospf = mospfHdr m' mospf := by
  have hversion : m.Agree m' mospf 1 := h.mono (by omega) (by omega)
  have htype : m.Agree m' (mospf + 1) 1 := h.mono (by omega) (by omega)
  have hlen : m.Agree m' (mospf + 2) 2 := h.mono (by omega) (by omega)
  have hrid : m.Agree m' (mospf + 4) 4 := h.mono (by omega) (by omega)
  have haid : m.Agree m' (mospf + 8) 4 := h.mono (by omega) (by omega)
  rw [mospfHdr, mospfHdr, hversion.load8, htype.load8, hlen.load16, hrid.load32, haid.load32]

theorem mospfLsuHdr_congr (h : m.Agree m' lsu 8) : mospfLsuHdr m lsu = mospfLsuHdr m' lsu := by
  have hseq : m.Agree m' lsu 2 := h.mono (by omega) (by omega)
  have httl : m.Agree m' (lsu + 2) 1 := h.mono (by omega) (by omega)
  have hnadv : m.Agree m' (lsu + 4) 4 := h.mono (by omega) (by omega)
  rw [mospfLsuHdr, mospfLsuHdr, hseq.load16, httl.load8, hnadv.load32]

theorem mospfLsas_congr (h : m.Agree m' array (12 * n)) : mospfLsas m array n = mospfLsas m' array n := by
  refine List.map_congr_left fun i hi => ?_
  have hi := List.mem_range.mp hi
  have hnetwork : m.Agree m' (array + 12 * i) 4 := h.mono (by omega) (by omega)
  have hmask : m.Agree m' (array + 12 * i + 4) 4 := h.mono (by omega) (by omega)
  have hrid : m.Agree m' (array + 12 * i + 8) 4 := h.mono (by omega) (by omega)
  rw [mospfLsa, mospfLsa, hnetwork.load32, hmask.load32, hrid.load32]

/-- A copied array. -/
theorem mospfLsas_copy (m src : Mem) (a b n : Nat) :
    mospfLsas (m.copy a src b (12 * n)) a n = mospfLsas src b n := by
  refine List.map_congr_left fun i hi => ?_
  have hi := List.mem_range.mp hi
  rw [mospfLsa, mospfLsa, Nat.add_assoc a, Nat.add_assoc a, Nat.add_assoc b, Nat.add_assoc b,
    Mem.load32_copy (by omega), Mem.load32_copy (by omega), Mem.load32_copy (by omega)]

theorem mospfInitHdr_header (m : Mem) (mospf : Nat) (type : U8) (len : U16) (rid aid : U32) :
    mospfHdr (mospfInitHdr m mospf type len rid aid) mospf =
      ⟨mospfVersion, type, htons len, htonl rid, htonl aid⟩ := by
  simp (disch := omega) only [mospfHdr, mospfInitHdr, Mem.load8_write, Mem.load8_store8, Mem.load16_write,
    Mem.load16_store16, Mem.load32_write, Mem.load32_store32]

theorem mospfInitHdr_frame (m : Mem) (mospf : Nat) (type : U8) (len : U16) (rid aid : U32) {a n : Nat}
    (h : a + n ≤ mospf ∨ mospf + 16 ≤ a) : Mem.Agree (mospfInitHdr m mospf type len rid aid) m a n := by
  intro i ha hn
  simp (disch := omega) only [mospfInitHdr, Mem.write_apply]

theorem mospfInitLsu_header (sequenceNum : U16) (m : Mem) (lsu : Nat) (nadv : U32) :
    mospfLsuHdr (mospfInitLsu sequenceNum m lsu nadv) lsu = ⟨htons sequenceNum, maxLsuTtl, htonl nadv⟩ := by
  simp (disch := omega) only [mospfLsuHdr, mospfInitLsu, Mem.load8_write, Mem.load8_store8, Mem.load16_write,
    Mem.load16_store16, Mem.load32_store32]

theorem mospfInitLsu_frame (sequenceNum : U16) (m : Mem) (lsu : Nat) (nadv : U32) {a n : Nat}
    (h : a + n ≤ lsu ∨ lsu + 8 ≤ a) : Mem.Agree (mospfInitLsu sequenceNum m lsu nadv) m a n := by
  intro i ha hn
  simp (disch := omega) only [mospfInitLsu, Mem.write_apply]

/-- What is in the checksum field makes no difference to the checksum. -/
theorem mospfChecksum_store (m : Mem) (mospf : Nat) (x : U16) :
    mospfChecksum (m.store16 (mospf + 12) x) mospf = mospfChecksum m mospf := by
  rw [mospfChecksum, mospfChecksum, Mem.store16, Mem.store16, Mem.store16, Mem.write_write]

/-- The checksum depends on the bytes that the header counts. -/
theorem mospfChecksum_congr (hheader : m.Agree m' mospf 12)
    (h : m.Agree m' mospf (ntohs (mospfHdr (m.store16 (mospf + 12) 0) mospf).len).toNat) :
    mospfChecksum m mospf = mospfChecksum m' mospf := by
  have hsame : mospfHdr (m.store16 (mospf + 12) 0) mospf = mospfHdr (m'.store16 (mospf + 12) 0) mospf :=
    mospfHdr_congr hheader.write
  rw [mospfChecksum, mospfChecksum, ← hsame]
  exact checksum_congr h.write

/-! ### Frames that hold an LSU -/

/-- The fields of the datagram at `ip`, and the LSAs behind them, are those of a packet. -/
structure Fields (areaId : U32) (m : Mem) (ip : Nat) (p : LsuPacket) : Prop where
  nadv : p.nadv.toNat = p.lsas.length
  ipHeader : iphdr m ip =
    ⟨4, 5, htons (BitVec.ofNat 16 (44 + 12 * p.lsas.length)), ipprotoMospf, htonl p.saddr, htonl p.daddr⟩
  mospfHeader : mospfHdr m (ip + 20) =
    ⟨mospfVersion, mospfTypeLsu, htons (BitVec.ofNat 16 (24 + 12 * p.lsas.length)), htonl p.rid, htonl areaId⟩
  lsuHeader : mospfLsuHdr m (ip + 36) = ⟨htons p.seq, p.ttl, htonl p.nadv⟩
  lsas : mospfLsas m (ip + 44) p.lsas.length = p.lsas

/-- The three headers and then a copy of the array of LSAs. -/
theorem Fields.of_headers {m₀ array : Mem} {saddr daddr rid nadv : U32} {seq : U16} {lsas : List MospfLsa}
    (hip : IpInitialised Mospf.checksum m ip saddr daddr (BitVec.ofNat 16 (44 + 12 * lsas.length)) ipprotoMospf m₀)
    (hnadv : nadv.toNat = lsas.length) (harray : mospfLsas array 0 lsas.length = lsas) :
    Fields areaId ((mospfInitLsu seq (mospfInitHdr m₀ (ip + 20) mospfTypeLsu
        (BitVec.ofNat 16 (24 + 12 * lsas.length)) rid areaId) (ip + 36) nadv).copy (ip + 44) array 0
        (12 * lsas.length)) ip ⟨saddr, daddr, rid, seq, maxLsuTtl, nadv, lsas⟩ where
  nadv := hnadv
  ipHeader := by
    rw [iphdr_congr (Mem.agree_write (by omega)) (Mem.agree_write (by omega)),
      iphdr_congr (mospfInitLsu_frame _ _ _ _ (by omega)) (mospfInitLsu_frame _ _ _ _ (by omega)),
      iphdr_congr (mospfInitHdr_frame _ _ _ _ _ _ (by omega)) (mospfInitHdr_frame _ _ _ _ _ _ (by omega)),
      hip.header]
  mospfHeader := by
    rw [mospfHdr_congr (Mem.agree_write (by omega)), mospfHdr_congr (mospfInitLsu_frame _ _ _ _ (by omega)),
      mospfInitHdr_header]
  lsuHeader := by rw [mospfLsuHdr_congr (Mem.agree_write (by omega)), mospfInitLsu_header]
  lsas := (mospfLsas_copy ..).trans harray

/-- Nothing but the two checksums is left out of the fields. -/
theorem Fields.of_agree (h : Fields areaId m ip p) (hip : m'.Agree m ip 10) (haddr : m'.Agree m (ip + 12) 20)
    (hlsu : m'.Agree m (ip + 36) (8 + 12 * p.lsas.length)) : Fields areaId m' ip p where
  nadv := h.nadv
  ipHeader := by rw [iphdr_congr hip (haddr.mono (by omega) (by omega)), h.ipHeader]
  mospfHeader := by rw [mospfHdr_congr (haddr.mono (by omega) (by omega)), h.mospfHeader]
  lsuHeader := by rw [mospfLsuHdr_congr (hlsu.mono (by omega) (by omega)), h.lsuHeader]
  lsas := by rw [mospfLsas_congr (hlsu.mono (by omega) (by omega)), h.lsas]

/-- The checksum field is none of the fields. -/
theorem Fields.store_checksum (h : Fields areaId m ip p) (x : U16) :
    Fields areaId (m.store16 (ip + 20 + 12) x) ip p :=
  h.of_agree (Mem.agree_write (by omega)) (Mem.agree_write (by omega)) (Mem.agree_write (by omega))

/-- The addresses are fields of their own, -/
theorem Fields.store_addrs (h : Fields areaId m ip p) (saddr daddr : U32) :
    Fields areaId ((m.store32 (ip + 12) (htonl saddr)).store32 (ip + 16) (htonl daddr)) ip
      { p with saddr, daddr } where
  nadv := h.nadv
  ipHeader := by
    have hheader : iphdr ((m.store32 (ip + 12) (htonl saddr)).store32 (ip + 16) (htonl daddr)) ip =
        { iphdr m ip with saddr := htonl saddr, daddr := htonl daddr } := by
      simp (disch := omega) only [iphdr, Mem.load8_write, Mem.load16_write, Mem.load32_write,
        Mem.load32_store32]
    rw [hheader, h.ipHeader]
  mospfHeader := by
    rw [mospfHdr_congr (Mem.agree_write (by omega)), mospfHdr_congr (Mem.agree_write (by omega)), h.mospfHeader]
  lsuHeader := by
    rw [mospfLsuHdr_congr (Mem.agree_write (by omega)), mospfLsuHdr_congr (Mem.agree_write (by omega)),
      h.lsuHeader]
  lsas := by
    rw [mospfLsas_congr (Mem.agree_write (by omega)), mospfLsas_congr (Mem.agree_write (by omega)), h.lsas]

/-- and so is the TTL. -/
theorem Fields.store_ttl (h : Fields areaId m ip p) (ttl : U8) :
    Fields areaId (m.store8 (ip + 36 + 2) ttl) ip { p with ttl } where
  nadv := h.nadv
  ipHeader := by rw [iphdr_congr (Mem.agree_write (by omega)) (Mem.agree_write (by omega)), h.ipHeader]
  mospfHeader := by rw [mospfHdr_congr (Mem.agree_write (by omega)), h.mospfHeader]
  lsuHeader := by
    have hheader : mospfLsuHdr (m.store8 (ip + 36 + 2) ttl) (ip + 36) =
        { mospfLsuHdr m (ip + 36) with ttl := ttl } := by
      simp (disch := omega) only [mospfLsuHdr, Mem.load8_store8, Mem.load16_write, Mem.load32_write]
    rw [hheader, h.lsuHeader]
  lsas := by rw [mospfLsas_congr (Mem.agree_write (by omega)), h.lsas]

/-- The length that the checksum covers. -/
theorem Fields.len_eq (h : Fields areaId m ip p) (hfits : 44 + 12 * p.lsas.length < 65536) :
    (ntohs (mospfHdr m (ip + 20)).len).toNat = 24 + 12 * p.lsas.length := by
  rw [h.mospfHeader]
  simp only [ntohs_ntohs, BitVec.toNat_ofNat]
  omega

/-- A datagram with these fields that the checksum test lets through. -/
structure Datagram (areaId : U32) (m : Mem) (ip : Nat) (p : LsuPacket) : Prop where
  fits : 44 + 12 * p.lsas.length < 65536
  fields : Fields areaId m ip p
  checksum : m.load16 (ip + 20 + 12) = mospfChecksum m (ip + 20)

/-- The fields and then the checksum over them make a datagram. -/
theorem Fields.checksummed (h : Fields areaId m ip p) (hfits : 44 + 12 * p.lsas.length < 65536) :
    Datagram areaId (m.store16 (ip + 20 + 12) (mospfChecksum m (ip + 20))) ip p where
  fits := hfits
  fields := h.store_checksum _
  checksum := by rw [Mem.load16_store16, mospfChecksum_store]

theorem Datagram.of_agree (h : Datagram areaId m ip p) (hip : m'.Agree m ip 10)
    (hrest : m'.Agree m (ip + 12) (32 + 12 * p.lsas.length)) : Datagram areaId m' ip p where
  fits := h.fits
  fields := h.fields.of_agree hip (hrest.mono (by omega) (by omega)) (hrest.mono (by omega) (by omega))
  checksum := by
    have hfield : m'.Agree m (ip + 20 + 12) 2 := hrest.mono (by omega) (by omega)
    have hlen := (h.fields.store_checksum 0).len_eq h.fits
    rw [hfield.load16, h.checksum]
    apply mospfChecksum_congr (hrest.symm.mono (by omega) (by omega))
    rw [hlen]
    exact hrest.symm.mono (by omega) (by omega)

/-- The IP checksum can be set afterwards. -/
theorem Datagram.store_ipChecksum (h : Datagram areaId m ip p) (x : U16) :
    Datagram areaId (m.store16 (ip + 10) x) ip p :=
  h.of_agree (Mem.agree_write (by omega)) (Mem.agree_write (by omega))

/-- The frame is the encoding of a packet in an area. -/
structure Holds (areaId : U32) (f : Frame) (p : LsuPacket) : Prop where
  len : f.len = etherHdrSize + 44 + 12 * p.lsas.length
  datagram : Datagram areaId f.mem etherHdrSize p

/-- Memory received as a frame: the bytes after the Ethernet header, which the link puts in. -/
def ReceivedAs (m : Mem) (f : Frame) : Prop := m.Agree f.mem etherHdrSize (f.len - etherHdrSize)

theorem Holds.received {f : Frame} (h : Holds areaId f p) (hm : ReceivedAs m f) : Holds areaId ⟨m, f.len⟩ p where
  len := h.len
  datagram := by
    have hlen := h.len
    exact h.datagram.of_agree (hm.mono (by omega) (by omega)) (hm.mono (by omega) (by omega))

/-- One of the frames that hold some packets holds one of them. -/
theorem exists_holds {frames : List Frame} {packets : List LsuPacket}
    (h : List.Forall₂ (Holds areaId) frames packets) {f : Frame} (hf : f ∈ frames) :
    ∃ p ∈ packets, Holds areaId f p := by
  induction h with
  | nil => cases hf
  | cons hholds _ ih =>
    rcases List.mem_cons.mp hf with rfl | hf
    · exact ⟨_, List.mem_cons_self, hholds⟩
    · obtain ⟨p, hp, hholds⟩ := ih hf
      exact ⟨p, List.mem_cons_of_mem _ hp, hholds⟩

theorem Fields.packetToMospfHdr_eq (h : Fields areaId m etherHdrSize p) :
    packetToMospfHdr m = etherHdrSize + 20 := by
  rw [packetToMospfHdr, h.ipHeader]
  rfl

/-- `handle_mospf_lsu` reads off the packet. -/
theorem Fields.lsuPacket_eq (h : Fields areaId m etherHdrSize p) : lsuPacket m = p := by
  have hlsas := h.lsas
  rw [← h.nadv] at hlsas
  simp only [lsuPacket, h.packetToMospfHdr_eq, mospfHdrSize, mospfLsuSize, Nat.add_assoc, Nat.reduceAdd,
    h.ipHeader, h.mospfHeader, h.lsuHeader, ntohl_ntohl, ntohs_ntohs, hlsas]

/-- What holds the packet passes the checks of the routers in its area. -/
theorem Datagram.accepted (h : Datagram areaId m etherHdrSize p) : Accepted areaId m := by
  rw [Accepted, h.fields.packetToMospfHdr_eq, h.fields.mospfHeader]
  exact ⟨rfl, h.checksum, ntohl_ntohl areaId⟩

end Wire

end NetStack.Mospf
