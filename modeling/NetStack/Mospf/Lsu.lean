import NetStack.Types
import Mathlib.Data.List.Basic

/-! Link-state updates (`mospf_daemon.c`, `mospf_proto.c` of `EXP12-mOSPF/code/12-mopsf`).

A packet is the fields of its IP, mOSPF and LSU headers that the handlers read or set, in
host order, with the LSAs behind them. Lengths and checksums are left out, and so is the
interface a packet came in on, which `handle_mospf_lsu` does not look at. -/
namespace NetStack.Mospf

/-- `MOSPF_MAX_LSU_TTL`. -/
def maxLsuTtl : U8 := 255

/-- `mospf_nbr_t`, less its timer. -/
structure MospfNbr where
  nbrId : U32
  nbrIp : U32
  nbrMask : U32
deriving DecidableEq, Repr

/-- `iface_info_t`: what the daemon reads of an interface. -/
structure Iface where
  ip : U32
  mask : U32
  numNbr : Nat
  nbrList : List MospfNbr
deriving DecidableEq, Repr

/-- `struct mospf_lsa`. -/
structure MospfLsa where
  network : U32
  mask : U32
  rid : U32
deriving DecidableEq, Repr

/-- `mospf_db_entry_t`, with the number of elements its array was allocated with. -/
structure MospfDbEntry where
  rid : U32
  seq : U16
  nadv : Int
  alive : Int
  allocated : Nat
  array : List MospfLsa
deriving DecidableEq, Repr

/-- `ustack_t`: the daemon's part of it. -/
structure Instance where
  routerId : U32
  sequenceNum : U16
  ifaceList : List Iface
deriving DecidableEq, Repr

/-- A packet with an LSU. -/
structure LsuPacket where
  saddr : U32
  daddr : U32
  rid : U32
  seq : U16
  ttl : U8
  nadv : U32
  lsas : List MospfLsa
deriving DecidableEq, Repr

/-! ### Emission -/

/-- `nbr_num`: an interface without neighbours counts once. -/
def nbrNum (ifaceList : List Iface) : Nat :=
  (ifaceList.map fun iface => if iface.numNbr = 0 then 1 else iface.numNbr).sum

/-- What an interface adds to the array. -/
def Iface.lsas (iface : Iface) : List MospfLsa :=
  if iface.numNbr = 0 then [⟨iface.ip &&& iface.mask, iface.mask, 0⟩]
  else iface.nbrList.map fun nbr => ⟨nbr.nbrIp &&& nbr.nbrMask, nbr.nbrMask, nbr.nbrId⟩

/-- The first `nbr_num` elements of the array, which starts out as zeros. -/
def lsaArray (ifaceList : List Iface) : List MospfLsa :=
  (ifaceList.flatMap Iface.lsas ++ List.replicate (nbrNum ifaceList) (⟨0, 0, 0⟩ : MospfLsa)).take (nbrNum ifaceList)

/-- `sending_mospf_lsu`: one packet for each neighbour on each interface. -/
def sendingMospfLsu (inst : Instance) : Instance × List LsuPacket :=
  let inst' := { inst with sequenceNum := inst.sequenceNum + 1 }
  (inst', inst'.ifaceList.flatMap fun iface => iface.nbrList.map fun nbr =>
    { saddr := iface.ip
      daddr := nbr.nbrIp
      rid := inst'.routerId
      seq := inst'.sequenceNum
      ttl := maxLsuTtl
      nadv := BitVec.ofNat 32 (nbrNum inst'.ifaceList)
      lsas := lsaArray inst'.ifaceList })

/-! ### Reception -/

/-- The LSAs the packet counts. -/
def LsuPacket.adverts (packet : LsuPacket) : List MospfLsa := packet.lsas.take packet.nadv.toNat

/-- A newer LSU written over an entry: the array is rewritten where it is. -/
def MospfDbEntry.update (entry : MospfDbEntry) (packet : LsuPacket) : MospfDbEntry :=
  { entry with
    seq := packet.seq
    nadv := packet.nadv.toInt
    alive := 0
    array := packet.adverts ++ entry.array.drop packet.nadv.toNat }

/-- The entry made for the first LSU of a router. -/
def MospfDbEntry.ofLsu (packet : LsuPacket) : MospfDbEntry where
  rid := packet.rid
  seq := packet.seq
  nadv := packet.nadv.toInt
  alive := 0
  allocated := packet.nadv.toNat
  array := packet.adverts

/-- The database after the packet; none where `isUpdated` stays 0. -/
def updateDb : List MospfDbEntry → LsuPacket → Option (List MospfDbEntry)
  | [], packet => some [.ofLsu packet]
  | entry :: rest, packet =>
    if entry.rid = packet.rid then
      if entry.seq < packet.seq then some (entry.update packet :: rest) else none
    else (updateDb rest packet).map (entry :: ·)

/-- The copies of a packet to all neighbours but its originator. -/
def forward (ifaceList : List Iface) (packet : LsuPacket) : List LsuPacket :=
  ifaceList.flatMap fun iface =>
    (iface.nbrList.filter fun nbr => nbr.nbrId ≠ packet.rid).map fun nbr =>
      { packet with saddr := iface.ip, daddr := nbr.nbrIp }

/-- `handle_mospf_lsu`, and the packets it sends. -/
def handleMospfLsu (inst : Instance) (mospfDb : List MospfDbEntry) (packet : LsuPacket) :
    List MospfDbEntry × List LsuPacket :=
  match updateDb mospfDb packet with
  | none => (mospfDb, [])
  | some mospfDb' =>
    let packet' := { packet with ttl := packet.ttl - 1 }
    (mospfDb', if 0 < packet'.ttl then forward inst.ifaceList packet' else [])

/-- `MOSPF_DATABASE_TIMEOUT`. -/
def mospfDatabaseTimeout : Int := 40

/-- A pass of `checking_database_thread`. -/
def checkingDatabase (mospfDb : List MospfDbEntry) : List MospfDbEntry :=
  (mospfDb.map fun entry => { entry with alive := entry.alive + 1 }).filter fun entry =>
    entry.alive ≤ mospfDatabaseTimeout

/-! ### The database -/

/-- The entry a search by router id finds. -/
def entryOf (mospfDb : List MospfDbEntry) (rid : U32) : Option MospfDbEntry :=
  mospfDb.find? fun entry => entry.rid = rid

/-- The sequence number held for a router; 0 without an entry. -/
def heldSeq (mospfDb : List MospfDbEntry) (rid : U32) : Nat :=
  ((entryOf mospfDb rid).map fun entry => entry.seq.toNat).getD 0

/-- What an LSU leaves in the database. -/
structure Stores (entry : MospfDbEntry) (packet : LsuPacket) : Prop where
  rid : entry.rid = packet.rid
  seq : entry.seq = packet.seq
  nadv : entry.nadv = packet.nadv.toInt
  array : entry.array = packet.adverts

variable {db db' : List MospfDbEntry} {packet : LsuPacket} {rid : U32}

theorem entryOf_cons (entry : MospfDbEntry) (rest : List MospfDbEntry) (rid : U32) :
    entryOf (entry :: rest) rid = if entry.rid = rid then some entry else entryOf rest rid := by
  by_cases h : entry.rid = rid <;> simp [entryOf, h]

theorem entryOf_mem {entry : MospfDbEntry} (h : entryOf db rid = some entry) :
    entry ∈ db ∧ entry.rid = rid :=
  ⟨List.mem_of_find?_eq_some h, by simpa using List.find?_some h⟩

@[simp] theorem MospfDbEntry.update_rid (entry : MospfDbEntry) (packet : LsuPacket) :
    (entry.update packet).rid = entry.rid := rfl

/-- A packet is not taken when an entry at least as new is held. -/
theorem updateDb_none (h : updateDb db packet = none) : packet.seq.toNat ≤ heldSeq db packet.rid := by
  induction db with
  | nil => cases h
  | cons entry rest ih =>
    simp only [updateDb] at h
    rw [heldSeq, entryOf_cons]
    split at h
    · rename_i hrid
      split at h
      · cases h
      · rename_i hseq
        rw [if_pos hrid]
        exact BitVec.not_lt.mp hseq
    · rename_i hrid
      rw [if_neg hrid]
      exact ih (Option.map_eq_none_iff.mp h)

/-- A packet that is newer than what is held is taken. -/
theorem exists_updateDb (h : ∀ entry, entryOf db packet.rid = some entry → entry.seq < packet.seq) :
    ∃ db', updateDb db packet = some db' := by
  induction db with
  | nil => exact ⟨_, rfl⟩
  | cons first rest ih =>
    unfold updateDb
    split
    · rename_i hrid
      have hfirst := h first (by rw [entryOf_cons, if_pos hrid])
      exact ⟨_, if_pos hfirst⟩
    · rename_i hrid
      obtain ⟨rest', hrest⟩ := ih fun entry hentry => h entry (by rw [entryOf_cons, if_neg hrid, hentry])
      exact ⟨_, by rw [hrest]; rfl⟩

/-- What taking a packet does to a database. -/
structure Taken (db : List MospfDbEntry) (packet : LsuPacket) (db' : List MospfDbEntry) : Prop where
  newer : ∀ entry, entryOf db packet.rid = some entry → entry.seq < packet.seq
  taken : entryOf db' packet.rid =
    some (((entryOf db packet.rid).map fun entry => entry.update packet).getD (.ofLsu packet))
  other : ∀ rid, rid ≠ packet.rid → entryOf db' rid = entryOf db rid
  mem : ∀ entry ∈ db', entry ∈ db ∨ entryOf db' packet.rid = some entry

theorem updateDb_some (h : updateDb db packet = some db') : Taken db packet db' := by
  induction db generalizing db' with
  | nil =>
    cases h
    refine ⟨nofun, ?_, fun rid hne => ?_, fun entry hentry => .inr ?_⟩
    · simp [entryOf, MospfDbEntry.ofLsu]
    · simp [entryOf, MospfDbEntry.ofLsu, Ne.symm hne]
    · obtain rfl := List.mem_singleton.mp hentry
      simp [entryOf, MospfDbEntry.ofLsu]
  | cons first rest ih =>
    simp only [updateDb] at h
    split at h
    · rename_i hrid
      split at h
      · rename_i hseq
        cases h
        refine ⟨fun entry hentry => ?_, ?_, fun rid hne => ?_, fun entry hentry => ?_⟩
        · rw [entryOf_cons, if_pos hrid] at hentry
          cases hentry
          exact hseq
        · simp [entryOf_cons, hrid]
        · have hne' : first.rid ≠ rid := fun h => hne (h.symm.trans hrid)
          simp [entryOf_cons, hne']
        · rcases List.mem_cons.mp hentry with rfl | hentry
          · exact .inr (by rw [entryOf_cons, MospfDbEntry.update_rid, if_pos hrid])
          · exact .inl (List.mem_cons_of_mem _ hentry)
      · cases h
    · rename_i hrid
      obtain ⟨rest', hrest, rfl⟩ := Option.map_eq_some_iff.mp h
      have htaken := ih hrest
      refine ⟨?_, ?_, fun rid hne => ?_, fun entry hentry => ?_⟩
      · rw [entryOf_cons, if_neg hrid]
        exact htaken.newer
      · rw [entryOf_cons, entryOf_cons, if_neg hrid, if_neg hrid]
        exact htaken.taken
      · rw [entryOf_cons, entryOf_cons, htaken.other rid hne]
      · rw [entryOf_cons, if_neg hrid]
        rcases List.mem_cons.mp hentry with rfl | hentry
        · exact .inl (List.mem_cons_self ..)
        · exact (htaken.mem entry hentry).imp (List.mem_cons_of_mem _) id

/-- It is newer than what was held, -/
theorem heldSeq_lt (h : updateDb db packet = some db') (hpos : 0 < packet.seq.toNat) :
    heldSeq db packet.rid < packet.seq.toNat := by
  have htaken := updateDb_some h
  rw [heldSeq]
  cases hentry : entryOf db packet.rid with
  | none => exact hpos
  | some entry => exact htaken.newer entry hentry

/-- and held from then on. -/
theorem heldSeq_updateDb (h : updateDb db packet = some db') :
    heldSeq db' packet.rid = packet.seq.toNat := by
  rw [heldSeq, (updateDb_some h).taken]
  cases entryOf db packet.rid <;> rfl

/-- The other entries are left alone. -/
theorem heldSeq_updateDb_ne (h : updateDb db packet = some db') (hne : rid ≠ packet.rid) :
    heldSeq db' rid = heldSeq db rid := by
  rw [heldSeq, heldSeq, (updateDb_some h).other rid hne]

/-- A router has one entry at most. -/
theorem updateDb_nodup (h : updateDb db packet = some db') (hdb : (db.map (·.rid)).Nodup) :
    (db'.map (·.rid)).Nodup := by
  have hrids : db'.map (·.rid) = db.map (·.rid) ∨
      packet.rid ∉ db.map (·.rid) ∧ db'.map (·.rid) = db.map (·.rid) ++ [packet.rid] := by
    clear hdb
    induction db generalizing db' with
    | nil =>
      cases h
      exact .inr ⟨List.not_mem_nil, rfl⟩
    | cons first rest ih =>
      simp only [updateDb] at h
      split at h
      · split at h
        · cases h
          exact .inl rfl
        · cases h
      · rename_i hrid
        obtain ⟨rest', hrest, rfl⟩ := Option.map_eq_some_iff.mp h
        rcases ih hrest with heq | ⟨hnotin, heq⟩
        · exact .inl (by rw [List.map_cons, List.map_cons, heq])
        · refine .inr ⟨fun hin => ?_, by rw [List.map_cons, List.map_cons, heq, List.cons_append]⟩
          rcases List.mem_cons.mp hin with hin | hin
          · exact hrid hin.symm
          · exact hnotin hin
  rcases hrids with heq | ⟨hnotin, heq⟩
  · rwa [heq]
  · rw [heq]
    exact List.nodup_append.mpr ⟨hdb, List.nodup_singleton _, fun x hx y hy => by
      rw [List.mem_singleton.mp hy]
      exact fun h => hnotin (h ▸ hx)⟩

/-- The only element of a list with what no other has. -/
theorem filter_of_nodup {α β : Type} [DecidableEq β] {f : α → β} {l : List α} (h : (l.map f).Nodup) {x : α}
    (hx : x ∈ l) : l.filter (fun y => f y = f x) = [x] := by
  induction l with
  | nil => cases hx
  | cons y l ih =>
    obtain ⟨hnotin, hrest⟩ := List.nodup_cons.mp h
    rcases List.mem_cons.mp hx with rfl | hx
    · rw [List.filter_cons_of_pos (by simp), List.filter_eq_nil_iff.mpr]
      intro z hz heq
      exact hnotin (List.mem_map.mpr ⟨z, hz, of_decide_eq_true heq⟩)
    · have hne : ¬f y = f x := fun heq => hnotin (heq ▸ List.mem_map_of_mem hx)
      rw [List.filter_cons_of_neg (by simpa using hne)]
      exact ih hrest hx

/-- Then it is the only one. -/
theorem entryOf_filter {entry : MospfDbEntry} (hdb : (db.map (·.rid)).Nodup)
    (h : entryOf db rid = some entry) : db.filter (fun entry => entry.rid = rid) = [entry] := by
  obtain ⟨hentry, rfl⟩ := entryOf_mem h
  exact filter_of_nodup hdb hentry

/-! ### What is sent -/

theorem mem_sent {inst : Instance} : packet ∈ (sendingMospfLsu inst).2 ↔
    ∃ iface ∈ inst.ifaceList, ∃ nbr ∈ iface.nbrList, packet =
      { saddr := iface.ip, daddr := nbr.nbrIp, rid := inst.routerId, seq := inst.sequenceNum + 1
        ttl := maxLsuTtl, nadv := BitVec.ofNat 32 (nbrNum inst.ifaceList), lsas := lsaArray inst.ifaceList } := by
  simp only [sendingMospfLsu, List.mem_flatMap, List.mem_map]
  constructor
  · intro hyp
    obtain ⟨iface, hiface, nbr, hnbr, rfl⟩ := hyp
    exact ⟨iface, hiface, nbr, hnbr, rfl⟩
  · intro hyp
    obtain ⟨iface, hiface, nbr, hnbr, rfl⟩ := hyp
    exact ⟨iface, hiface, nbr, hnbr, rfl⟩

/-- The array has as many elements as are counted. -/
theorem length_lsaArray (ifaceList : List Iface) : (lsaArray ifaceList).length = nbrNum ifaceList := by
  rw [lsaArray, List.length_take, List.length_append, List.length_replicate]
  omega

theorem mem_forward {ifaceList : List Iface} {copy : LsuPacket} :
    copy ∈ forward ifaceList packet ↔ ∃ iface ∈ ifaceList, ∃ nbr ∈ iface.nbrList,
      nbr.nbrId ≠ packet.rid ∧ copy = { packet with saddr := iface.ip, daddr := nbr.nbrIp } := by
  simp only [forward, List.mem_flatMap, List.mem_map, List.mem_filter, decide_eq_true_eq]
  constructor
  · intro hyp
    obtain ⟨iface, hiface, nbr, ⟨hnbr, hne⟩, rfl⟩ := hyp
    exact ⟨iface, hiface, nbr, hnbr, hne, rfl⟩
  · intro hyp
    obtain ⟨iface, hiface, nbr, hnbr, hne, rfl⟩ := hyp
    exact ⟨iface, hiface, nbr, ⟨hnbr, hne⟩, rfl⟩

end NetStack.Mospf
