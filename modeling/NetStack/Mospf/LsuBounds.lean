import NetStack.Lib.Run
import NetStack.Mospf.Daemon

/-! What `handle_mospf_packet` and `handle_mospf_lsu` touch (`mospf_daemon.c`,
`include/mospf_proto.h` of `EXP12-mOSPF/code/12-mopsf`).

A packet says how long its IP header is, how much its checksum covers and how many LSAs it
has, and no length is compared with that of the packet. An entry's array is allocated for
the first LSU of its router and rewritten by later ones. All accesses stay in bounds
exactly when each packet has what it says it has, and no LSU of a known router has more
LSAs than that router's array has elements (`inBounds_iff`). -/
namespace NetStack.Mospf.Daemon

/-! ### Accesses -/

/-- Some bytes, from an address on. -/
structure Span where
  start : Nat
  size : Nat
deriving DecidableEq, Repr

/-- The bytes are among the first `len`. -/
def Span.Inside (s : Span) (len : Nat) : Prop := ∀ i, s.start ≤ i → i < s.start + s.size → i < len

/-- The bytes `mospf_checksum` reads: the field, the length, and what is summed. -/
def mospfChecksumReads (m : Mem) (mospf : Nat) : List Span :=
  let m := m.store16 (mospf + 12) 0
  [⟨mospf + 12, 2⟩, ⟨mospf + 2, 2⟩, ⟨mospf, (ntohs (mospfHdr m mospf).len).toNat⟩]

/-- The bytes `ip_checksum` reads. -/
def ipChecksumReads (m : Mem) (ip : Nat) : List Span :=
  let m := m.store16 (ip + 10) 0
  [⟨ip + 10, 2⟩, ⟨ip, 1⟩, ⟨ip, (iphdr m ip).size⟩]

/-- The bytes read of a copy, when it is given its addresses and its checksums. -/
def copyReads (m : Mem) (saddr daddr : U32) : List Span :=
  let ip := etherHdrSize
  let m := m.store32 (ip + 12) (htonl saddr)
  let m := m.store32 (ip + 16) (htonl daddr)
  let mospf := Wire.packetToMospfHdr m
  let m' := m.store16 (mospf + 12) (Wire.mospfChecksum m mospf)
  ⟨ip, 1⟩ :: mospfChecksumReads m mospf ++ ipChecksumReads m' ip

/-- The addresses of the copies that `handle_mospf_lsu` makes of a packet in memory. -/
def copies (d : Daemon) (m : Mem) : List (U32 × U32) :=
  let mospf := Wire.packetToMospfHdr m
  d.ifaceList.flatMap fun iface =>
    (iface.nbrList.filter fun nbr => nbr.nbrId ≠ ntohl (mospfHdr m mospf).rid).map fun nbr => (iface.ip, nbr.nbrIp)

/-- A packet with `lsu->ttl` one less. -/
def lessTtl (m : Mem) : Mem :=
  let lsu := Wire.packetToMospfHdr m + mospfHdrSize
  m.store8 (lsu + 2) ((mospfLsuHdr m lsu).ttl - 1)

/-- The bytes `handle_mospf_lsu` reads of the headers. -/
def headerReads (m : Mem) : List Span :=
  let ip := etherHdrSize
  let mospf := Wire.packetToMospfHdr m
  let lsu := mospf + mospfHdrSize
  [⟨ip, 1⟩, ⟨mospf + 4, 4⟩, ⟨ip + 12, 4⟩, ⟨lsu, 2⟩, ⟨lsu + 2, 1⟩, ⟨lsu + 4, 4⟩]

/-- The bytes `handle_mospf_lsu` reads: the headers; the LSAs if they are stored; and then the
TTL, and what is copied, and of each copy. -/
def lsuReads (d : Daemon) (packet : Frame) : List Span :=
  let lsu := Wire.packetToMospfHdr packet.mem + mospfHdrSize
  match updateDb d.mospfDb (Wire.lsuPacket packet.mem) with
  | none => headerReads packet.mem
  | some _ =>
    let m := lessTtl packet.mem
    headerReads packet.mem ++ [⟨lsu + mospfLsuSize, mospfLsaSize * (Wire.lsuPacket packet.mem).nadv.toNat⟩] ++
      if 0 < (mospfLsuHdr m lsu).ttl then
        (d.copies m).flatMap fun target => ⟨0, packet.len⟩ :: copyReads m target.1 target.2
      else []

/-- The packet is an LSU that passes the checks of `handle_mospf_packet`. -/
def IsLsu (d : Daemon) (packet : Frame) : Prop :=
  Wire.Accepted d.areaId packet.mem ∧
    (mospfHdr packet.mem (Wire.packetToMospfHdr packet.mem)).type = mospfTypeLsu

instance (d : Daemon) (packet : Frame) : Decidable (d.IsLsu packet) := inferInstanceAs (Decidable (_ ∧ _))

/-- The loop over `array[i]` writes elements that the entry's array was allocated with. -/
def WritesInside (mospfDb : List MospfDbEntry) (packet : LsuPacket) : Prop :=
  ∀ mospfDb' entry, updateDb mospfDb packet = some mospfDb' → entryOf mospfDb' packet.rid = some entry →
    ∀ i < packet.nadv.toNat, i < entry.allocated

/-! ### What the daemon is given -/

/-- A packet comes in, neighbours come and go, or the database is passed over. -/
inductive Input
  | packet (packet : Frame)
  | neighbours (ifaceList : List IfaceInfo)
  | pass

/-- What becomes of the database and the neighbours. -/
def take (d : Daemon) : Input → Daemon
  | .packet packet => if d.IsLsu packet then (d.handleMospfLsu packet).1 else d
  | .neighbours ifaceList => { d with ifaceList }
  | .pass => { d with mospfDb := checkingDatabase d.mospfDb }

def Takes (d : Daemon) (e : Input) (d' : Daemon) : Prop := d.take e = d'

/-- The checksum and `handle_mospf_lsu` read bytes of the packet, and write elements of the array. -/
def InBounds (d : Daemon) : Input → Prop
  | .packet packet =>
    Wire.Accepted d.areaId packet.mem →
      (∀ s ∈ mospfChecksumReads packet.mem (Wire.packetToMospfHdr packet.mem), s.Inside packet.len) ∧
        (d.IsLsu packet → (∀ s ∈ d.lsuReads packet, s.Inside packet.len) ∧
          WritesInside d.mospfDb (Wire.lsuPacket packet.mem))
  | _ => True

/-- The length field of a copy, once its addresses are set. -/
def copyLen (m : Mem) (saddr daddr : U32) : Nat :=
  let m := (m.store32 (etherHdrSize + 12) (htonl saddr)).store32 (etherHdrSize + 16) (htonl daddr)
  (ntohs (mospfHdr m (Wire.packetToMospfHdr m)).len).toNat

/-- The LSU is the first of its router, or newer than what is held of it. -/
def Newer (mospfDb : List MospfDbEntry) (packet : LsuPacket) : Prop :=
  ∀ entry, entryOf mospfDb packet.rid = some entry → entry.seq < packet.seq

/-- A packet has the header it is checked by and the bytes its length field counts. If it is an
LSU it has an LSU header, and if it is a new one it has the LSAs it counts, no more than the
array of a router that is held has elements, and its copies have what their length fields,
which an IP header cut short puts under the addresses, count. -/
def Fits (d : Daemon) : Input → Prop
  | .packet packet =>
    let mospf := Wire.packetToMospfHdr packet.mem
    let lsu := mospf + mospfHdrSize
    let m := lessTtl packet.mem
    Wire.Accepted d.areaId packet.mem →
      (mospf + 14 ≤ packet.len ∧ mospf + (ntohs (mospfHdr packet.mem mospf).len).toNat ≤ packet.len) ∧
        (d.IsLsu packet → lsu + mospfLsuSize ≤ packet.len ∧
          (Newer d.mospfDb (Wire.lsuPacket packet.mem) →
            lsu + mospfLsuSize + mospfLsaSize * (Wire.lsuPacket packet.mem).nadv.toNat ≤ packet.len ∧
              (∀ entry, entryOf d.mospfDb (Wire.lsuPacket packet.mem).rid = some entry →
                (Wire.lsuPacket packet.mem).nadv.toNat ≤ entry.allocated) ∧
              (0 < (mospfLsuHdr m lsu).ttl → ∀ target ∈ d.copies m,
                mospf + copyLen m target.1 target.2 ≤ packet.len)))
  | _ => True

/-! ### Spans -/

variable {m m' : Mem} {mospf ip len : Nat} {saddr daddr : U32}

theorem Span.inside_of_le {s : Span} (h : s.start + s.size ≤ len) : s.Inside len := fun _ _ hi => hi.trans_le h

theorem Span.inside_iff {s : Span} (hsize : 0 < s.size) : s.Inside len ↔ s.start + s.size ≤ len := by
  refine ⟨fun h => ?_, Span.inside_of_le⟩
  have hlast := h (s.start + s.size - 1) (by omega) (by omega)
  omega

/-- Behind bytes that are inside, some more are, or none. -/
theorem Span.inside_iff_of_le {s : Span} (h : s.start ≤ len) : s.Inside len ↔ s.start + s.size ≤ len := by
  rcases Nat.eq_zero_or_pos s.size with hzero | hpos
  · refine iff_of_true (Span.inside_of_le ?_) ?_ <;> omega
  · exact Span.inside_iff hpos

/-- The bytes the checksum is taken over. -/
theorem checksumReads_inside : (∀ s ∈ mospfChecksumReads m mospf, s.Inside len) ↔
    mospf + 14 ≤ len ∧ mospf + (ntohs (mospfHdr m mospf).len).toNat ≤ len := by
  have hheader : mospfHdr (m.store16 (mospf + 12) 0) mospf = mospfHdr m mospf :=
    Wire.mospfHdr_congr (Mem.agree_write (by omega))
  simp only [mospfChecksumReads, hheader, List.forall_mem_cons, List.not_mem_nil, false_implies, implies_true,
    and_true]
  constructor
  · intro h
    obtain ⟨hfield, -, hsummed⟩ := h
    have hfield := (Span.inside_iff Nat.zero_lt_two).mp hfield
    exact ⟨hfield, (Span.inside_iff_of_le (by dsimp only at *; omega)).mp hsummed⟩
  · intro h
    obtain ⟨hfield, hsummed⟩ := h
    exact ⟨Span.inside_of_le hfield, Span.inside_of_le (by dsimp only; omega), Span.inside_of_le hsummed⟩

theorem size_congr (h : m.Agree m' ip 1) : (iphdr m ip).size = (iphdr m' ip).size := by
  show (m.load8 ip &&& 0x0f).toNat * 4 = (m'.load8 ip &&& 0x0f).toNat * 4
  rw [h.load8]

/-- What is stored behind the first byte of the IP header leaves the mOSPF header where it is. -/
theorem packetToMospfHdr_congr (h : m.Agree m' etherHdrSize 1) :
    Wire.packetToMospfHdr m = Wire.packetToMospfHdr m' := by
  rw [Wire.packetToMospfHdr, Wire.packetToMospfHdr, size_congr h]

/-- The bytes read of a copy whose LSU header is inside. -/
theorem copyReads_inside (h : Wire.packetToMospfHdr m + 24 ≤ len) :
    (∀ s ∈ copyReads m saddr daddr, s.Inside len) ↔ Wire.packetToMospfHdr m + copyLen m saddr daddr ≤ len := by
  have hether : etherHdrSize = 14 := rfl
  let readdressed := (m.store32 (etherHdrSize + 12) (htonl saddr)).store32 (etherHdrSize + 16) (htonl daddr)
  have hfirst : readdressed.Agree m etherHdrSize 1 := fun i hi hi' =>
    (Mem.write_apply (by omega)).trans (Mem.write_apply (by omega))
  have hmospf : Wire.packetToMospfHdr readdressed = Wire.packetToMospfHdr m := packetToMospfHdr_congr hfirst
  have hbehind : etherHdrSize ≤ Wire.packetToMospfHdr m := Nat.le_add_right ..
  have hsize : ∀ x : U16,
      (iphdr ((readdressed.store16 (Wire.packetToMospfHdr m + 12) x).store16 (etherHdrSize + 10) 0)
        etherHdrSize).size = (iphdr m etherHdrSize).size := by
    intro x
    have hchecksums : ((readdressed.store16 (Wire.packetToMospfHdr m + 12) x).store16 (etherHdrSize + 10) 0).Agree
        readdressed etherHdrSize 1 := fun i hi hi' =>
      (Mem.write_apply (by omega)).trans (Mem.write_apply (by omega))
    exact (size_congr hchecksums).trans (size_congr hfirst)
  have hend : etherHdrSize + (iphdr m etherHdrSize).size = Wire.packetToMospfHdr m := rfl
  have hlen : copyLen m saddr daddr = (ntohs (mospfHdr readdressed (Wire.packetToMospfHdr m)).len).toNat := by
    rw [← hmospf]
    rfl
  have hreads : copyReads m saddr daddr =
      ⟨etherHdrSize, 1⟩ :: (mospfChecksumReads readdressed (Wire.packetToMospfHdr m) ++
      ipChecksumReads (readdressed.store16 (Wire.packetToMospfHdr m + 12)
        (Wire.mospfChecksum readdressed (Wire.packetToMospfHdr m))) etherHdrSize) := by
    rw [← hmospf]
    rfl
  rw [hreads, List.forall_mem_cons, List.forall_mem_append, checksumReads_inside, hlen]
  constructor
  · intro hyp
    obtain ⟨-, ⟨-, hsummed⟩, -⟩ := hyp
    exact hsummed
  · intro hsummed
    refine ⟨Span.inside_of_le (by dsimp only; omega), ⟨by omega, hsummed⟩, ?_⟩
    simp only [ipChecksumReads, hsize, List.forall_mem_cons, List.not_mem_nil, false_implies, implies_true, and_true]
    exact ⟨Span.inside_of_le (by dsimp only; omega), Span.inside_of_le (by dsimp only; omega),
      Span.inside_of_le (by dsimp only; omega)⟩

/-! ### One packet -/

variable {db db' : List MospfDbEntry} {p : LsuPacket} {d : Daemon} {packet : Frame}

/-- A packet is taken exactly if it is newer than what is held. -/
theorem updateDb_isSome : (∃ db', updateDb db p = some db') ↔ Newer db p :=
  ⟨fun ⟨_, h⟩ => (updateDb_some h).newer, exists_updateDb⟩

/-- The array of a new entry has room; that of an entry held is as large as before. -/
theorem writesInside_iff (hnewer : Newer db p) : WritesInside db p ↔
    ∀ entry, entryOf db p.rid = some entry → p.nadv.toNat ≤ entry.allocated := by
  obtain ⟨db', hdb'⟩ := exists_updateDb hnewer
  have htaken := (updateDb_some hdb').taken
  constructor
  · intro h entry hentry
    rw [hentry] at htaken
    have hwrites := h db' _ hdb' htaken
    by_contra hless
    exact lt_irrefl _ (hwrites entry.allocated (by omega))
  · intro h db'' entry' hdb'' hentry' i hi
    obtain rfl : db' = db'' := Option.some.inj (hdb'.symm.trans hdb'')
    rw [htaken] at hentry'
    cases hentry : entryOf db p.rid with
    | none =>
      rw [hentry] at hentry'
      obtain rfl := Option.some.inj hentry'
      exact hi
    | some entry =>
      rw [hentry] at hentry'
      obtain rfl := Option.some.inj hentry'
      exact hi.trans_le (h entry hentry)

/-- The bytes read of the headers. -/
theorem headerReads_inside : (∀ s ∈ headerReads m, s.Inside len) ↔
    Wire.packetToMospfHdr m + mospfHdrSize + mospfLsuSize ≤ len := by
  have hether : etherHdrSize = 14 := rfl
  have hbehind : etherHdrSize ≤ Wire.packetToMospfHdr m := Nat.le_add_right ..
  have hhdr : mospfHdrSize = 16 := rfl
  have hlsu : mospfLsuSize = 8 := rfl
  simp only [headerReads, List.forall_mem_cons, List.not_mem_nil, false_implies, implies_true, and_true]
  constructor
  · intro h
    obtain ⟨-, -, -, -, -, hlast⟩ := h
    have hlast := (Span.inside_iff (Nat.succ_pos 3)).mp hlast
    dsimp only at hlast
    omega
  · intro hin
    refine ⟨?_, ?_, ?_, ?_, ?_, ?_⟩ <;> exact Span.inside_of_le (by dsimp only; omega)

/-- What is read of an LSU that is not new. -/
theorem lsuReads_old (h : ¬Newer d.mospfDb (Wire.lsuPacket packet.mem)) :
    (∀ s ∈ d.lsuReads packet, s.Inside packet.len) ↔
      Wire.packetToMospfHdr packet.mem + mospfHdrSize + mospfLsuSize ≤ packet.len := by
  have hnone : updateDb d.mospfDb (Wire.lsuPacket packet.mem) = none :=
    Option.eq_none_iff_forall_ne_some.mpr fun db' hdb' => h (updateDb_isSome.mp ⟨db', hdb'⟩)
  simp only [lsuReads, hnone]
  exact headerReads_inside

/-- Counting down the TTL leaves the headers where they are. -/
theorem packetToMospfHdr_lessTtl (m : Mem) : Wire.packetToMospfHdr (lessTtl m) = Wire.packetToMospfHdr m := by
  have hbehind : etherHdrSize ≤ Wire.packetToMospfHdr m := Nat.le_add_right ..
  have hhdr : mospfHdrSize = 16 := rfl
  refine packetToMospfHdr_congr ?_
  unfold lessTtl
  exact Mem.agree_write (by omega)

/-- What is read of one that is. -/
theorem lsuReads_new (h : Newer d.mospfDb (Wire.lsuPacket packet.mem)) :
    (∀ s ∈ d.lsuReads packet, s.Inside packet.len) ↔
      Wire.packetToMospfHdr packet.mem + mospfHdrSize + mospfLsuSize ≤ packet.len ∧
        Wire.packetToMospfHdr packet.mem + mospfHdrSize + mospfLsuSize +
          mospfLsaSize * (Wire.lsuPacket packet.mem).nadv.toNat ≤ packet.len ∧
        (0 < (mospfLsuHdr (lessTtl packet.mem) (Wire.packetToMospfHdr packet.mem + mospfHdrSize)).ttl →
          ∀ target ∈ d.copies (lessTtl packet.mem),
            Wire.packetToMospfHdr packet.mem + copyLen (lessTtl packet.mem) target.1 target.2 ≤ packet.len) := by
  obtain ⟨db', hdb'⟩ := exists_updateDb h
  have hhdr : mospfHdrSize = 16 := rfl
  have hlsu : mospfLsuSize = 8 := rfl
  have hmospf := packetToMospfHdr_lessTtl packet.mem
  have hcopies : Wire.packetToMospfHdr packet.mem + mospfHdrSize + mospfLsuSize ≤ packet.len →
      ((∀ s ∈ (d.copies (lessTtl packet.mem)).flatMap fun target =>
          ⟨0, packet.len⟩ :: copyReads (lessTtl packet.mem) target.1 target.2, s.Inside packet.len) ↔
        ∀ target ∈ d.copies (lessTtl packet.mem),
          Wire.packetToMospfHdr packet.mem + copyLen (lessTtl packet.mem) target.1 target.2 ≤ packet.len) := by
    intro hin
    have hcopy : ∀ target : U32 × U32,
        (∀ s ∈ ⟨0, packet.len⟩ :: copyReads (lessTtl packet.mem) target.1 target.2, s.Inside packet.len) ↔
          Wire.packetToMospfHdr packet.mem + copyLen (lessTtl packet.mem) target.1 target.2 ≤ packet.len := by
      intro target
      rw [List.forall_mem_cons, copyReads_inside (by omega), hmospf]
      exact and_iff_right (Span.inside_of_le (by dsimp only; omega))
    constructor
    · intro hall target htarget
      exact (hcopy target).mp fun s hs => hall s (List.mem_flatMap.mpr ⟨target, htarget, hs⟩)
    · intro hall s hs
      obtain ⟨target, htarget, hs⟩ := List.mem_flatMap.mp hs
      exact (hcopy target).mpr (hall target htarget) s hs
  simp only [lsuReads, hdb', List.forall_mem_append, List.forall_mem_singleton, headerReads_inside]
  constructor
  · intro hyp
    obtain ⟨⟨hin, hlsas⟩, hrest⟩ := hyp
    refine ⟨hin, (Span.inside_iff_of_le hin).mp hlsas, fun httl => ?_⟩
    rw [if_pos httl] at hrest
    exact (hcopies hin).mp hrest
  · intro hyp
    obtain ⟨hin, hlsas, hrest⟩ := hyp
    refine ⟨⟨hin, Span.inside_of_le hlsas⟩, ?_⟩
    split
    · rename_i httl
      exact (hcopies hin).mpr (hrest httl)
    · exact fun s hs => absurd hs List.not_mem_nil

/-- The code stays in bounds on a packet exactly if the packet is as it says, and no larger
than what is held. -/
theorem inBounds_packet (d : Daemon) (e : Input) : d.InBounds e ↔ d.Fits e := by
  cases e with
  | neighbours ifaceList => exact Iff.rfl
  | pass => exact Iff.rfl
  | packet packet =>
    refine imp_congr_right fun _ => and_congr checksumReads_inside (imp_congr_right fun _ => ?_)
    by_cases hnewer : Newer d.mospfDb (Wire.lsuPacket packet.mem)
    · rw [lsuReads_new hnewer, writesInside_iff hnewer]
      constructor
      · intro h
        obtain ⟨⟨hin, hlsas, hcopies⟩, hroom⟩ := h
        exact ⟨hin, fun _ => ⟨hlsas, hroom, hcopies⟩⟩
      · intro h
        obtain ⟨hin, hrest⟩ := h
        obtain ⟨hlsas, hroom, hcopies⟩ := hrest hnewer
        exact ⟨⟨hin, hlsas, hcopies⟩, hroom⟩
    · have hwrites : WritesInside d.mospfDb (Wire.lsuPacket packet.mem) := fun db' _ hdb' =>
        absurd (updateDb_isSome.mp ⟨db', hdb'⟩) hnewer
      rw [lsuReads_old hnewer]
      exact ⟨fun hyp => ⟨hyp.1, fun hnew => absurd hnew hnewer⟩, fun hyp => ⟨hyp.1, hwrites⟩⟩

/-- **Packets are handled in bounds** throughout a run exactly when each of them fits. -/
theorem inBounds_iff (d : Daemon) (es : List Input) : Along Takes InBounds d es ↔ Along Takes Fits d es := by
  have hiff : InBounds = Fits := funext fun d => funext fun e => propext (inBounds_packet d e)
  rw [hiff]

/-- A copy of a packet with a whole IP header has the length field of the packet. -/
theorem copyLen_eq (h : 5 ≤ (iphdr m etherHdrSize).ihl) :
    copyLen m saddr daddr = (ntohs (mospfHdr m (Wire.packetToMospfHdr m)).len).toNat := by
  have hether : etherHdrSize = 14 := rfl
  have hend : etherHdrSize + (iphdr m etherHdrSize).ihl * 4 = Wire.packetToMospfHdr m := rfl
  let readdressed := (m.store32 (etherHdrSize + 12) (htonl saddr)).store32 (etherHdrSize + 16) (htonl daddr)
  have hsame : ∀ i, i = etherHdrSize ∨ etherHdrSize + 20 ≤ i → readdressed i = m i := fun i hi =>
    (Mem.write_apply (by omega)).trans (Mem.write_apply (by omega))
  have hmospf : Wire.packetToMospfHdr readdressed = Wire.packetToMospfHdr m :=
    packetToMospfHdr_congr fun i hi hi' => hsame i (by omega)
  have hheader : mospfHdr readdressed (Wire.packetToMospfHdr m) = mospfHdr m (Wire.packetToMospfHdr m) :=
    Wire.mospfHdr_congr fun i hi _ => hsame i (by omega)
  show (ntohs (mospfHdr readdressed (Wire.packetToMospfHdr readdressed)).len).toNat = _
  rw [hmospf, hheader]

/-! ### The arrays -/

/-- Every array is as large as it was allocated, and its entry counts no more of it. -/
def Sized (d : Daemon) : Prop :=
  ∀ entry ∈ d.mospfDb, entry.array.length = entry.allocated ∧ entry.nadv.toNat ≤ entry.allocated

theorem toNat_toInt_le (nadv : U32) : nadv.toInt.toNat ≤ nadv.toNat := by
  have := nadv.isLt
  rw [BitVec.toInt_eq_toNat_cond]
  split <;> omega

/-- A packet has as many LSAs as it counts. -/
theorem length_adverts (m : Mem) : (Wire.lsuPacket m).adverts.length = (Wire.lsuPacket m).nadv.toNat := by
  simp only [LsuPacket.adverts, Wire.lsuPacket, List.length_take, mospfLsas, List.length_map, List.length_range,
    Nat.min_self]

/-- A packet that fits leaves every array its size. -/
theorem Sized.take (h : d.Sized) (e : Input) (hfits : d.Fits e) : (d.take e).Sized := by
  cases e with
  | neighbours ifaceList => exact h
  | pass =>
    intro entry hentry
    obtain ⟨old, hold, rfl⟩ := List.mem_map.mp (List.mem_of_mem_filter hentry)
    exact h old hold
  | packet packet =>
    show Sized (if d.IsLsu packet then (d.handleMospfLsu packet).1 else d)
    split
    · rename_i hlsu
      unfold handleMospfLsu
      split
      · exact h
      · rename_i db' hdb'
        have htaken := updateDb_some hdb'
        obtain ⟨-, hroom, -⟩ := ((hfits hlsu.1).2 hlsu).2 htaken.newer
        have hadverts := length_adverts packet.mem
        have hcount := toNat_toInt_le (Wire.lsuPacket packet.mem).nadv
        intro entry hentry
        rcases htaken.mem entry hentry with hold | hnew
        · exact h entry hold
        · rw [htaken.taken] at hnew
          cases hheld : entryOf d.mospfDb (Wire.lsuPacket packet.mem).rid with
          | none =>
            rw [hheld] at hnew
            obtain rfl := Option.some.inj hnew
            exact ⟨hadverts, hcount⟩
          | some old =>
            rw [hheld] at hnew
            obtain rfl := Option.some.inj hnew
            have hle := hroom old hheld
            have hsize := (h old (entryOf_mem hheld).1).1
            refine ⟨?_, hcount.trans hle⟩
            show ((Wire.lsuPacket packet.mem).adverts ++ old.array.drop _).length = old.allocated
            rw [List.length_append, List.length_drop, hadverts, hsize]
            omega
    · exact h

/-- As long as the packets fit, so that `init_graph` and `update_router` too find in each array
what its entry counts. -/
theorem sized_throughout (hd : d.Sized) {es : List Input} (hfits : Along Takes Fits d es) :
    Throughout Takes Sized d es := by
  refine hfits.throughout (fun d e d' h hfits ht => ?_) hd
  rw [← show d.take e = d' from ht]
  exact h.take e hfits

/-! ### A longer LSU -/

/-- An LSU of router 10.0.0.2 with this sequence number and as many LSAs, of zeros; its TTL is 1. -/
def lsuBytes (seq nadv : U8) : Mem := fun a =>
  if a = 14 then 0x45 else if a = 34 then 2 else if a = 35 then 4 else if a = 37 then 24 + 12 * nadv
  else if a = 38 then 10 else if a = 41 then 2 else if a = 51 then seq else if a = 52 then 1
  else if a = 57 then nadv else 0

/-- The packet, checksum and all. -/
def lsuOf (seq nadv : U8) : Frame :=
  ⟨(lsuBytes seq nadv).store16 46 (Wire.mospfChecksum (lsuBytes seq nadv) 34), 58 + 12 * nadv.toNat⟩

/-- A daemon that has heard of no router. -/
def fresh : Daemon := mospfInit (0x0a000001, 0xffffff00) [] fun _ => 0

/-- The second LSU of the router has one LSA, and the array of the first has no room for it. -/
theorem array_overrun : ¬Along Takes InBounds fresh [.packet (lsuOf 1 0), .packet (lsuOf 2 1)] := by
  intro h
  have hfirst : (fresh.take (.packet (lsuOf 1 0))).mospfDb = [⟨0x0a000002, 1, 0, 0, 0, []⟩] := by decide
  have hsecond : (fresh.take (.packet (lsuOf 1 0))).IsLsu (lsuOf 2 1) := by decide
  have hin := ((h.2 _ rfl).1 hsecond.1).2 hsecond
  have hwrites := hin.2
  rw [hfirst] at hwrites
  have hover := hwrites [⟨0x0a000002, 2, 1, 0, 0, [⟨0, 0, 0⟩]⟩] ⟨0x0a000002, 2, 1, 0, 0, [⟨0, 0, 0⟩]⟩
    (by decide) (by decide) 0 (by decide)
  exact Nat.not_lt_zero 0 hover

end NetStack.Mospf.Daemon
