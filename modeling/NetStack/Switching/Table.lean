import NetStack.Ethernet
import Mathlib.Data.List.FinRange
import Mathlib.Data.Fintype.Basic
import Mathlib.Logic.Function.Basic

/-! The learning switch (`EXP05-Switch_Net`): `mac.c`, and `handle_packet` with the sending
functions it calls.

The table is 256 bucket lists, indexed by a hash of the address. A lookup stamps the entry
it finds; an entry is only ever added at the tail of its bucket, by `handle_packet`, for a
source address a lookup does not find. The clock is `time(NULL)`, read once for a frame
and once for a sweep. -/
namespace NetStack.Switching

/-- `MAC_PORT_TIMEOUT`, in seconds. -/
def macPortTimeout : Int := 30

/-- `iface_info_t`, without its name and its own address. -/
structure IfaceInfo where
  fd : Int
  index : Int
deriving DecidableEq, Repr

/-- `struct mac_port_entry`. -/
structure MacPortEntry where
  mac : Mac
  iface : IfaceInfo
  visited : Int
deriving DecidableEq, Repr

/-- `mac_port_map_t`, without its lock and its thread. -/
structure MacPortMap where
  hashTable : U8 → List MacPortEntry

/-- The table `init_mac_port_table` leaves. -/
def initMacPortTable : MacPortMap := ⟨fun _ => []⟩

/-- `hash8`, over the `ETH_ALEN` bytes of an address. -/
def hash8 (mac : Mac) : U8 := mac.toList.foldl (· ^^^ ·) 0

/-- The loop of `mac_cmp`, at byte `i`. -/
def macCmpFrom (i : Nat) : List U8 → List U8 → Nat
  | a :: as, b :: bs => if a ≠ b then i + 1 else macCmpFrom (i + 1) as bs
  | _, _ => 0

/-- `mac_cmp`: 0, or one more than the place of the first difference. -/
def macCmp (mac1 mac2 : Mac) : Nat := macCmpFrom 0 mac1.toList mac2.toList

/-- `mac_cpy`. -/
def macCpy (dst src : Mac) : Mac := Fin.foldl 6 (fun d i => d.set i src[i]) dst

/-- The walk of `lookup_port` through a bucket: what it returns, and the bucket with the
entry it stopped at stamped. -/
def visit (mac : Mac) (now : Int) : List MacPortEntry → Option IfaceInfo × List MacPortEntry
  | [] => (none, [])
  | entry :: rest =>
    if macCmp entry.mac mac = 0 then (some entry.iface, { entry with visited := now } :: rest)
    else ((visit mac now rest).1, entry :: (visit mac now rest).2)

/-- One bucket of the table replaced. -/
def MacPortMap.setBucket (map : MacPortMap) (i : U8) (bucket : List MacPortEntry) : MacPortMap :=
  ⟨Function.update map.hashTable i bucket⟩

/-- `lookup_port`. -/
def lookupPort (map : MacPortMap) (mac : Mac) (now : Int) : Option IfaceInfo × MacPortMap :=
  let hashValue := hash8 mac
  let (found, bucket) := visit mac now (map.hashTable hashValue)
  (found, map.setBucket hashValue bucket)

/-- `insert_mac_port`. -/
def insertMacPort (map : MacPortMap) (mac : Mac) (iface : IfaceInfo) (now : Int) : MacPortMap :=
  let entry : MacPortEntry := ⟨macCpy (Vector.replicate 6 0) mac, iface, now⟩
  let hashValue := hash8 mac
  map.setBucket hashValue (map.hashTable hashValue ++ [entry])

/-- The test of the sweep, with the conversion of the time difference to `int`. -/
def MacPortEntry.aged (now : Int) (entry : MacPortEntry) : Bool :=
  toCInt (now - entry.visited) > macPortTimeout

/-- The buckets, in the order of the sweep. -/
def buckets : List U8 := (List.finRange 256).map BitVec.ofFin

/-- `sweep_aged_mac_port_entry`: the number of entries removed, and the table. -/
def sweepAgedMacPortEntry (map : MacPortMap) (now : Int) : Nat × MacPortMap :=
  ((buckets.map fun i => ((map.hashTable i).filter (MacPortEntry.aged now)).length).sum,
    ⟨fun i => (map.hashTable i).filter fun entry => !entry.aged now⟩)

/-! ### The switch -/

/-- What `instance` and `mac_port_map` hold. -/
structure Switch where
  ifaceList : List IfaceInfo
  map : MacPortMap

/-- `broadcast_packet`: the interfaces the frame is sent from. -/
def broadcastPacket (ifaceList : List IfaceInfo) (iface : IfaceInfo) : List IfaceInfo :=
  ifaceList.filter fun entry => entry.fd ≠ iface.fd

/-- `handle_packet`: the interfaces the frame is sent from, and the switch. -/
def handlePacket (s : Switch) (iface : IfaceInfo) (packet : EtherFrame) (now : Int) :
    List IfaceInfo × Switch :=
  let (ifaceEntry, map) := lookupPort s.map packet.etherDhost now
  let sent :=
    match ifaceEntry with
    | some entry => [entry]
    | none => broadcastPacket s.ifaceList iface
  let (known, map) := lookupPort map packet.etherShost now
  let map := if known.isNone then insertMacPort map packet.etherShost iface now else map
  (sent, { s with map })

/-! ### What the byte loops compute -/

theorem macCmpFrom_eq_zero (i : Nat) (as bs : List U8) (h : as.length = bs.length) :
    macCmpFrom i as bs = 0 ↔ as = bs := by
  induction as generalizing i bs with
  | nil =>
    cases bs with
    | nil => simp [macCmpFrom]
    | cons b bs => simp at h
  | cons a as ih =>
    cases bs with
    | nil => simp at h
    | cons b bs =>
      by_cases hab : a = b
      · simp [macCmpFrom, hab, ih (i + 1) bs (by simpa using h)]
      · simp [macCmpFrom, hab]

@[simp] theorem macCmp_eq_zero (a b : Mac) : macCmp a b = 0 ↔ a = b := by
  rw [macCmp, macCmpFrom_eq_zero 0 _ _ (by simp), Vector.toList_inj]

@[simp] theorem macCpy_eq (dst src : Mac) : macCpy dst src = src := by
  simp only [macCpy, Fin.foldl_succ_last, Fin.foldl_zero]
  ext i hi : 1
  obtain rfl | rfl | rfl | rfl | rfl | rfl : i = 0 ∨ i = 1 ∨ i = 2 ∨ i = 3 ∨ i = 4 ∨ i = 5 := by omega
  all_goals simp

theorem mem_buckets (i : U8) : i ∈ buckets :=
  List.mem_map.mpr ⟨i.toFin, List.mem_finRange _, rfl⟩

theorem buckets_nodup : buckets.Nodup :=
  (List.nodup_finRange 256).map fun _ _ h => BitVec.ofFin.inj h

/-! ### A bucket at a time -/

/-- The entries of the whole table. -/
def MacPortMap.entries (map : MacPortMap) : List MacPortEntry := buckets.flatMap map.hashTable

variable {map : MacPortMap} {mac m : Mac} {iface : IfaceInfo} {now : Int} {e : MacPortEntry}

theorem MacPortMap.mem_entries : e ∈ map.entries ↔ ∃ i, e ∈ map.hashTable i := by
  simp [MacPortMap.entries, mem_buckets]

/-- A lookup finds the first entry with the address. -/
theorem visit_fst (mac : Mac) (now : Int) (bucket : List MacPortEntry) :
    (visit mac now bucket).1 = (bucket.find? fun entry => entry.mac = mac).map (·.iface) := by
  induction bucket with
  | nil => rfl
  | cons entry rest ih =>
    rw [visit]
    by_cases h : entry.mac = mac
    · simp [h]
    · simp [h, ih]

/-- A lookup leaves addresses and interfaces alone. -/
theorem visit_map {α : Type} (f : MacPortEntry → α) (hf : ∀ entry, f { entry with visited := now } = f entry)
    (mac : Mac) (bucket : List MacPortEntry) : (visit mac now bucket).2.map f = bucket.map f := by
  induction bucket with
  | nil => rfl
  | cons entry rest ih =>
    rw [visit]
    split
    · simp [hf]
    · simp [ih]

/-- Where an address occurs once, a lookup stamps the entries with that address. -/
theorem visit_snd (mac : Mac) (now : Int) (bucket : List MacPortEntry)
    (h : (bucket.map (·.mac)).Nodup) :
    (visit mac now bucket).2 =
      bucket.map fun entry => if entry.mac = mac then { entry with visited := now } else entry := by
  induction bucket with
  | nil => rfl
  | cons entry rest ih =>
    rw [List.map_cons, List.nodup_cons] at h
    rw [visit]
    by_cases heq : entry.mac = mac
    · have hrest : ∀ other ∈ rest, other.mac ≠ mac := by
        intro other hother hmac
        exact h.1 (heq ▸ hmac ▸ List.mem_map_of_mem hother)
      have hid : rest.map (fun entry => if entry.mac = mac then { entry with visited := now } else entry)
          = rest.map id := List.map_congr_left fun other hother => if_neg (hrest other hother)
      rw [if_pos ((macCmp_eq_zero _ _).mpr heq), List.map_cons, if_pos heq, hid, List.map_id]
    · rw [if_neg (mt (macCmp_eq_zero _ _).mp heq), List.map_cons, if_neg heq, ih h.2]

@[simp] theorem setBucket_hashTable (i j : U8) (bucket : List MacPortEntry) :
    (map.setBucket i bucket).hashTable j = if j = i then bucket else map.hashTable j := by
  simp [MacPortMap.setBucket, Function.update_apply]

theorem lookupPort_fst (map : MacPortMap) (mac : Mac) (now : Int) :
    (lookupPort map mac now).1 =
      ((map.hashTable (hash8 mac)).find? fun entry => entry.mac = mac).map (·.iface) :=
  visit_fst mac now _

/-- What a lookup finds does not depend on when it looks. -/
theorem lookupPort_fst_time (map : MacPortMap) (mac : Mac) (now now' : Int) :
    (lookupPort map mac now).1 = (lookupPort map mac now').1 := by
  rw [lookupPort_fst, lookupPort_fst]

/-- A lookup changes what no lookup finds. -/
theorem lookupPort_lookupPort (map : MacPortMap) (mac m : Mac) (now now' : Int) :
    (lookupPort (lookupPort map mac now).2 m now').1 = (lookupPort map m now').1 := by
  have hfind : ∀ bucket : List MacPortEntry,
      ((visit mac now bucket).2.find? fun entry => entry.mac = m).map (·.iface) =
        (bucket.find? fun entry => entry.mac = m).map (·.iface) := by
    intro bucket
    induction bucket with
    | nil => rfl
    | cons entry rest ih =>
      rw [visit]
      split
      · by_cases h : entry.mac = m <;> simp [h]
      · by_cases h : entry.mac = m <;> simp [h, ih]
  rw [lookupPort_fst, lookupPort_fst]
  simp only [lookupPort, setBucket_hashTable]
  split
  · rename_i h
    rw [hfind, h]
  · rfl

/-- What is inserted is found behind what was there. -/
theorem lookupPort_insertMacPort (map : MacPortMap) (mac : Mac) (iface : IfaceInfo) (now : Int) (m : Mac)
    (now' : Int) :
    (lookupPort (insertMacPort map mac iface now) m now').1 =
      (lookupPort map m now').1.or (if m = mac then some iface else none) := by
  rw [lookupPort_fst, lookupPort_fst]
  simp only [insertMacPort, setBucket_hashTable, macCpy_eq]
  by_cases hbucket : hash8 m = hash8 mac
  · rw [if_pos hbucket, hbucket, List.find?_append, Option.map_or]
    by_cases hm : mac = m
    · simp [hm]
    · simp [hm, Ne.symm hm]
  · have hm : m ≠ mac := fun h => hbucket (h ▸ rfl)
    rw [if_neg hbucket, if_neg hm, Option.or_none]

end NetStack.Switching
