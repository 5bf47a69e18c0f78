import NetStack.Tcp.Counting

/-! Source ports (`tcp_port_in_use`, `tcp_get_port`, `tcp_sock_set_sport`, `tcp_sock_bind`,
`tcp_sock_connect` in `tcp_sock.c`).

The buckets of the bind table link the nodes `bind_hash_list`, but `tcp_port_in_use` walks
them as the nodes `hash_list`, which lie 16 bytes before. What it takes for a socket's port
are two bytes of the pointer to its parent, and zero for a socket without one. So no port is
ever in use, a bind is never refused, and `tcp_get_port` finds the same port each time. Ports
are not shared as long as nobody takes one that is held (`unshared_iff`). -/
namespace NetStack.Tcp

/-! ### The layout of `struct tcp_sock` -/

/-- Where `port` lies in `struct sock_addr`, and with it `sk_sport` in `struct tcp_sock`. -/
def portOffset : Nat := 4

/-- Where `hash_list` and `bind_hash_list` lie in `struct tcp_sock`. -/
def hashListOffset : Nat := 32
def bindHashListOffset : Nat := 48

/-- `struct tcp_sock` up to `hash_list`, byte by byte: the two packed addresses, `parent`
at its alignment, `ref_cnt`, and zeros between. The sockets lie at `address`. -/
def TcpSock.bytes (address : Nat → U64) (tsk : TcpSock) : List U8 :=
  let parent := tsk.parent.elim 0 address
  bytes32 tsk.skSip ++ bytes16 tsk.skSport ++ bytes32 tsk.skDip ++ bytes16 tsk.skDport ++ [0, 0, 0, 0] ++
    bytes32 (parent.extractLsb' 0 32) ++ bytes32 (parent.extractLsb' 32 32) ++
    bytes32 (BitVec.ofInt 32 tsk.refCnt) ++ [0, 0, 0, 0]

/-- The half word at an offset. -/
def halfAt (bytes : List U8) (offset : Nat) : Option U16 :=
  match bytes[offset]?, bytes[offset + 1]? with
  | some low, some high => some (high ++ low)
  | _, _ => none

/-- What `sk_sport` reads of a socket whose `bind_hash_list` is taken for its `hash_list`. -/
def TcpSock.misreadPort (address : Nat → U64) (tsk : TcpSock) : Option U16 :=
  halfAt (tsk.bytes address) (bindHashListOffset - hashListOffset + portOffset)

/-- Where it should read, the port is. -/
theorem TcpSock.port_at (address : Nat → U64) (tsk : TcpSock) :
    halfAt (tsk.bytes address) portOffset = some tsk.skSport := by
  have hjoin : tsk.skSport.extractLsb' 8 8 ++ tsk.skSport.extractLsb' 0 8 = tsk.skSport := by
    apply BitVec.eq_of_getLsbD_eq
    intro i hi
    rw [BitVec.getLsbD_append, BitVec.getLsbD_extractLsb', BitVec.getLsbD_extractLsb']
    by_cases hlow : i < 8
    · simp [hlow]
    · simp [hlow, show i - 8 < 8 by omega, show 8 + (i - 8) = i by omega]
  exact congrArg some hjoin

/-- Where it does read, two bytes of the pointer to the parent are. -/
theorem TcpSock.misreadPort_bytes (address : Nat → U64) (tsk : TcpSock) :
    tsk.misreadPort address = some (((tsk.parent.elim 0 address).extractLsb' 32 32).extractLsb' 8 8 ++
      ((tsk.parent.elim 0 address).extractLsb' 32 32).extractLsb' 0 8) := rfl

theorem TcpSock.misreadPort_eq (address : Nat → U64) {tsk : TcpSock} (h : tsk.parent = none) :
    tsk.misreadPort address = some 0 := by
  rw [misreadPort_bytes, h, Option.elim_none]
  decide

namespace Stack
open LinkedList (WellFormed)

/-! ### Finding a port -/

/-- `PORT_MIN`, `PORT_MAX`. -/
def portMin : Nat := 12345
def portMax : Nat := 23456

variable (address : Nat → U64)

/-- `tcp_port_in_use`. -/
def portInUse (s : Stack) (sport : U16) : Option Bool :=
  let bucket := portBucket sport
  let found := s.bindHashList.find bucket (fun id => (s.socks[id]?).any fun tsk => tsk.misreadPort address = some sport)
    (s.socks.length + 1) (.head bucket)
  found.map Option.isSome

/-- The loop of `tcp_get_port`. -/
def firstFree (s : Stack) : List Nat → Option U16
  | [] => some 0
  | port :: rest =>
    match s.portInUse address (BitVec.ofNat 16 port) with
    | none => none
    | some true => firstFree s rest
    | some false => some (BitVec.ofNat 16 port)

/-- `tcp_get_port`. -/
def getPort (s : Stack) : Option U16 := s.firstFree address (List.range' portMin (portMax - portMin))

/-- `tcp_sock_set_sport`, with what it returns. -/
def setSport (s : Stack) (id : Nat) (port : U16) : Option (Int × Stack) :=
  if port = 0 then
    match s.getPort address with
    | none => none
    | some port => if port = 0 then some (-1, s) else (s.sockBind id port).map fun t => (0, t)
  else
    match s.portInUse address port with
    | none => none
    | some true => some (-1, s)
    | some false => (s.sockBind id port).map fun t => (0, t)

/-- `tcp_sock_connect` up to its sleep, with what it returns; the route's interface has
address `sip`. -/
def connectTo (s : Stack) (id : Nat) (sip dip : U32) (dport : U16) : Option (Int × Stack) :=
  match s.getPort address with
  | none => none
  | some sport =>
    if sport = 0 then some (-1, s)
    else (s.sockConnect id ⟨sip, sport, dip, dport⟩).map fun t => (sport.toNat, t)

/-- A bind or a connect, each on a fresh socket, or `tcp_bind_unhash`. -/
inductive PortEvent
  | bind (port : U16)
  | connect (sip dip : U32) (dport : U16)
  | unhash (id : Nat)

/-- What the call returns, and the host after it. -/
def portStep (s : Stack) : PortEvent → Option (Int × Stack)
  | .bind port => s.alloc.setSport address s.socks.length port
  | .connect sip dip dport => s.alloc.connectTo address s.socks.length sip dip dport
  | .unhash id =>
    match s.sock id with
    | none => none
    | some _ => (s.bindUnhash id).map fun t => (0, t)

def PortStep (s : Stack) (e : PortEvent) (t : Stack) : Prop := ∃ result, s.portStep address e = some (result, t)

/-! ### The condition -/

/-- The port and the parent of a socket. -/
def face (s : Stack) (id : Nat) : Option (U16 × Option Nat) := (s.socks[id]?).map fun tsk => (tsk.skSport, tsk.parent)

/-- A socket linked in the bind table, with its port. -/
def Holds (s : Stack) (port : U16) (id : Nat) : Prop := s.InBind id ∧ (s.socks[id]?).map TcpSock.skSport = some port

/-- No two sockets linked in the bind table have the same port. -/
def Unshared (s : Stack) : Prop := ∀ port id id', s.Holds port id → s.Holds port id' → id = id'

/-- No port is shared after the call, and a bind to a port that is held returns -1 and
changes nothing. -/
def Refuses (s : Stack) (e : PortEvent) : Prop :=
  (∀ t, s.PortStep address e t → t.Unshared) ∧
    match e with
    | .bind port => (∃ id, s.Holds port id) → s.portStep address (.bind port) = some (-1, s.alloc)
    | _ => True

/-- The port the call takes, the one named or the first of all, is not held. -/
def Free (s : Stack) : PortEvent → Prop
  | .bind port => ∀ id, ¬ s.Holds (if port = 0 then BitVec.ofNat 16 portMin else port) id
  | .connect _ _ _ => ∀ id, ¬ s.Holds (BitVec.ofNat 16 portMin) id
  | .unhash _ => True

/-- The head of a bucket, or a socket on its list. -/
def OnRing (s : Stack) (bucket : U8) : LinkedList.Node U8 Nat → Prop
  | .head b => b = bucket
  | .entry id => LinkedList.Linked s.bindHashList bucket id

/-- A socket that is unhashed is in the table, or the nodes its own still links to are, as far
as they are on a list, next to each other. -/
def Settled (s : Stack) : PortEvent → Prop
  | .unhash id => s.InBind id ∨ ∀ p q bucket, (s.bindHashList (.entry id)).prev = some p →
      (s.bindHashList (.entry id)).next = some q → LinkedList.Adjacent s.bindHashList (s.OnRing bucket) p q
  | _ => True

/-! ### What the calls keep -/

/-- The tables are in order, and no socket has a parent. -/
structure Tidy (s : Stack) : Prop where
  hash : WellFormed s.hashList
  bind : WellFormed s.bindHashList
  named : ∀ id, s.InBind id ∨ s.Hashed id → id < s.socks.length
  freed : ∀ id ∈ s.freed, id < s.socks.length
  orphan : ∀ id port parent, s.face id = some (port, parent) → parent = none

variable {address} {s s' t : Stack} {id : Nat} {port : U16}

theorem face_modify (s : Stack) (id j : Nat) {f : TcpSock → TcpSock}
    (hf : ∀ tsk, (f tsk).skSport = tsk.skSport ∧ (f tsk).parent = tsk.parent) :
    (s.modify id f).face j = s.face j := by
  unfold face modify
  by_cases hj : j = id
  · subst hj
    rw [List.getElem?_modify_eq]
    cases s.socks[j]? with
    | none => rfl
    | some tsk => exact congrArg some (Prod.ext (hf tsk).1 (hf tsk).2)
  · rw [List.getElem?_modify_ne _ _ (Ne.symm hj)]

theorem holds_iff : s.Holds port id ↔ s.InBind id ∧ ∃ parent, s.face id = some (port, parent) := by
  unfold Holds face
  cases s.socks[id]? with
  | none => simp
  | some tsk => simp

/-- **No port is in use**, whoever holds it. -/
theorem Tidy.portInUse (h : Tidy s) (hport : port ≠ 0) : s.portInUse address port = some false := by
  obtain ⟨found, hfind⟩ := LinkedList.WellFormed.exists_find h.bind (t := portBucket port)
    (fun id hlinked => h.named id (.inl ⟨_, hlinked⟩))
    fun id => (s.socks[id]?).any fun tsk => tsk.misreadPort address = some port
  unfold Stack.portInUse
  dsimp only
  rw [hfind]
  cases found with
  | none => rfl
  | some id =>
    obtain ⟨-, hread⟩ := h.bind.find hfind
    cases hsock : s.socks[id]? with
    | none => simp [hsock] at hread
    | some tsk =>
      have horphan : tsk.parent = none := h.orphan id tsk.skSport tsk.parent (by simp [face, hsock])
      rw [hsock] at hread
      simp [TcpSock.misreadPort_eq address horphan] at hread
      exact absurd hread.symm hport

/-- So the first port is always free. -/
theorem Tidy.getPort (h : Tidy s) : s.getPort address = some (BitVec.ofNat 16 portMin) := by
  have hlist : List.range' portMin (portMax - portMin) =
      portMin :: List.range' (portMin + 1) (portMax - portMin - 1) := rfl
  unfold Stack.getPort
  rw [hlist, firstFree, h.portInUse (by decide)]

/-! ### Taking a port -/

theorem Tidy.modify (h : Tidy s) {f : TcpSock → TcpSock} (hf : ∀ tsk, (f tsk).parent = tsk.parent) :
    Tidy (s.modify id f) where
  hash := h.hash
  bind := h.bind
  named j hj := by
    rw [Stack.modify, List.length_modify]
    exact h.named j hj
  freed j hj := by
    rw [Stack.modify, List.length_modify]
    exact h.freed j hj
  orphan j port parent hface := by
    unfold face Stack.modify at hface
    by_cases hj : j = id
    · subst hj
      rw [List.getElem?_modify_eq] at hface
      cases hsock : s.socks[j]? with
      | none => simp [hsock] at hface
      | some tsk =>
        rw [hsock] at hface
        obtain ⟨-, hparent⟩ := Prod.mk.inj (Option.some.inj hface)
        rw [← hparent, hf]
        exact h.orphan j tsk.skSport tsk.parent (by simp [face, hsock])
    · rw [List.getElem?_modify_ne _ _ (Ne.symm hj)] at hface
      exact h.orphan j port parent hface

/-- A fresh socket. -/
theorem Tidy.alloc (h : Tidy s) :
    Tidy s.alloc ∧ (∀ j, s.alloc.InBind j ↔ s.InBind j) ∧ (∀ j, s.alloc.Hashed j ↔ s.Hashed j) ∧
      (∀ j < s.socks.length, s.alloc.face j = s.face j) ∧
      s.alloc.sock s.socks.length = some allocTcpSock := by
  have hoff : ¬ s.InBind s.socks.length ∧ ¬ s.Hashed s.socks.length :=
    ⟨fun hb => lt_irrefl _ (h.named _ (.inl hb)), fun hh => lt_irrefl _ (h.named _ (.inr hh))⟩
  obtain ⟨⟨hhash, hhashed⟩, hbind, hbound⟩ := alloc_tables h.hash h.bind hoff
  have hlength : s.alloc.socks.length = s.socks.length + 1 := by
    simp [Stack.alloc]
  have hold : ∀ j < s.socks.length, s.alloc.face j = s.face j := by
    intro j hj
    simp [face, Stack.alloc, List.getElem?_append_left hj]
  have hnew : s.alloc.socks[s.socks.length]? = some allocTcpSock := by
    simp [Stack.alloc]
  refine ⟨⟨hhash, hbind, fun j hj => ?_, fun j hj => ?_, fun j port parent hface => ?_⟩, hbound, hhashed, hold, ?_⟩
  · rw [hbound, hhashed] at hj
    have hlt := h.named j hj
    omega
  · have hlt := h.freed j hj
    omega
  · by_cases hj : j < s.socks.length
    · rw [hold j hj] at hface
      exact h.orphan j port parent hface
    · have hlt : j < s.alloc.socks.length := by
        obtain ⟨tsk, hsock, -⟩ := Option.map_eq_some_iff.mp hface
        exact (List.getElem?_eq_some_iff.mp hsock).1
      obtain rfl : j = s.socks.length := by omega
      rw [face, hnew] at hface
      obtain ⟨-, hparent⟩ := Prod.mk.inj (Option.some.inj hface)
      exact hparent.symm
  · exact sock_of_mem (fun hmem => lt_irrefl _ (h.freed _ hmem)) hnew

theorem Tidy.bindHash (h : Tidy s) (port : U16) (hid : id < s.socks.length) (hoff : ¬ s.InBind id) :
    ∃ t, s.bindHash id port = some t ∧ Tidy t ∧ (∀ j, t.InBind j ↔ s.InBind j ∨ j = id) ∧
      (∀ j, t.face j = s.face j) ∧ t.hashList = s.hashList ∧ t.socks = s.socks.modify id (Host.recount (· + 1)) := by
  have hnew : ∀ b, ¬ LinkedList.Linked s.bindHashList b id := fun b hb => hoff ⟨b, hb⟩
  obtain ⟨bindHashList, hadd⟩ := h.bind.exists_addHead hnew (portBucket port)
  obtain ⟨hwf, hlinked, -⟩ := h.bind.addHead hnew hadd
  have hbind : ∀ j, (∃ b, LinkedList.Linked bindHashList b j) ↔ s.InBind j ∨ j = id := by
    intro j
    simp only [hlinked, exists_or]
    exact or_congr Iff.rfl ⟨fun hyp => hyp.choose_spec.2, fun hj => ⟨_, rfl, hj⟩⟩
  have htidy : Tidy { s with bindHashList } := by
    refine ⟨h.hash, hwf, fun j hj => ?_, h.freed, h.orphan⟩
    rcases hj with hb | hh
    · rcases (hbind j).mp hb with hb | rfl
      · exact h.named j (.inl hb)
      · exact hid
    · exact h.named j (.inr hh)
  refine ⟨Stack.modify { s with bindHashList } id (Host.recount (· + 1)), ?_, htidy.modify fun _ => rfl,
    hbind, ?_, rfl, rfl⟩
  · unfold Stack.bindHash
    rw [hadd]
  · exact fun j => face_modify _ id j fun _ => ⟨rfl, rfl⟩

theorem Tidy.linkHash (h : Tidy s) (hid : id < s.socks.length) (hoff : ¬ s.Hashed id) (u : HashHead) :
    ∃ t, s.linkHash id u = some t ∧ Tidy t ∧ t.bindHashList = s.bindHashList ∧ ∀ j, t.face j = s.face j := by
  have hnew : ∀ u, ¬ LinkedList.Linked s.hashList u id := fun u hu => hoff ⟨u, hu⟩
  obtain ⟨hashList, hadd⟩ := h.hash.exists_addHead hnew u
  obtain ⟨hwf, hlinked, -⟩ := h.hash.addHead hnew hadd
  have htidy : Tidy { s with hashList } := by
    refine ⟨hwf, h.bind, fun j hj => ?_, h.freed, h.orphan⟩
    rcases hj with hb | ⟨v, hv⟩
    · exact h.named j (.inl hb)
    · rcases (hlinked v j).mp hv with hold | ⟨-, rfl⟩
      · exact h.named j (.inr ⟨v, hold⟩)
      · exact hid
  refine ⟨Stack.modify { s with hashList } id (Host.recount (· + 1)), ?_, htidy.modify fun _ => rfl, rfl, ?_⟩
  · unfold Stack.linkHash
    rw [hadd]
  · exact fun j => face_modify _ id j fun _ => ⟨rfl, rfl⟩

/-- `tcp_hash` ends, whatever the lookup finds. -/
theorem Tidy.hash_total (h : Tidy s) {tsk : TcpSock} (hsock : s.socks[id]? = some tsk)
    (hstate : tsk.state = .synSent) (hoff : ¬ s.Hashed id) :
    ∃ t, s.hash id = some t ∧ Tidy t ∧ t.bindHashList = s.bindHashList ∧ ∀ j, t.face j = s.face j := by
  obtain ⟨found, hfind⟩ := LinkedList.WellFormed.exists_find h.hash (t := tsk.addr.bucket)
    (fun j hlinked => h.named j (.inr ⟨_, hlinked⟩)) fun j => (s.socks[j]?).any fun other => other.addr = tsk.addr
  have hlookup : s.lookupEstablished tsk.addr = some found := hfind
  unfold Stack.hash
  simp only [hsock, hstate, hlookup]
  cases found with
  | some j => exact ⟨s, rfl, h, rfl, fun j => rfl⟩
  | none => exact h.linkHash (List.getElem?_eq_some_iff.mp hsock).1 hoff _

/-- One more socket, linked in the bind table with a port. -/
structure Takes (s : Stack) (port : U16) (t : Stack) : Prop where
  tidy : Tidy t
  bind : ∀ j, t.InBind j ↔ s.InBind j ∨ j = s.socks.length
  face : ∀ j < s.socks.length, t.face j = s.face j
  new : t.face s.socks.length = some (port, none)

theorem Takes.holds_iff (h : Takes s port t) (hs : Tidy s) {other : U16} {j : Nat} :
    t.Holds other j ↔ s.Holds other j ∨ j = s.socks.length ∧ other = port := by
  rw [Stack.holds_iff, Stack.holds_iff, h.bind]
  by_cases hj : j = s.socks.length
  · subst hj
    have hoff : ¬ s.InBind s.socks.length := fun hb => lt_irrefl _ (hs.named _ (.inl hb))
    simp [hoff, h.new, eq_comm]
  · constructor
    · intro hyp
      obtain ⟨hb | rfl, hface⟩ := hyp
      · rw [h.face j (hs.named j (.inl hb))] at hface
        exact .inl ⟨hb, hface⟩
      · exact absurd rfl hj
    · intro hyp
      rcases hyp with ⟨hb, hface⟩ | ⟨heq, -⟩
      · rw [← h.face j (hs.named j (.inl hb))] at hface
        exact ⟨.inl hb, hface⟩
      · exact absurd heq hj

/-- Ports stay unshared exactly if the one taken is not held. -/
theorem Takes.keeps_unshared (h : Takes s port t) (hs : Tidy s) (hunshared : s.Unshared) :
    t.Unshared ↔ ∀ j, ¬ s.Holds port j := by
  constructor
  · intro ht j hj
    have heq := ht port j s.socks.length ((h.holds_iff hs).mpr (.inl hj)) ((h.holds_iff hs).mpr (.inr ⟨rfl, rfl⟩))
    exact lt_irrefl _ (heq ▸ hs.named j (.inl hj.1))
  · intro hfree other j j' hj hj'
    rcases (h.holds_iff hs).mp hj with hold | ⟨rfl, rfl⟩ <;>
      rcases (h.holds_iff hs).mp hj' with hold' | ⟨heq, hport⟩
    · exact hunshared other j j' hold hold'
    · exact absurd (hport ▸ hold) (hfree j)
    · exact absurd hold' (hfree j')
    · exact heq.symm

theorem Tidy.sockBind (h : Tidy s) (port : U16) :
    ∃ t, s.alloc.sockBind s.socks.length port = some t ∧ Takes s port t := by
  obtain ⟨halloc, hbind, -, hface, hsock⟩ := h.alloc
  obtain ⟨-, hnew, hlt⟩ := sock_cases hsock
  have hset : Tidy (s.alloc.modify s.socks.length fun tsk => { tsk with skSport := port }) :=
    halloc.modify fun _ => rfl
  have hoff : ¬ s.alloc.InBind s.socks.length := fun hb =>
    lt_irrefl _ (h.named _ (.inl ((hbind _).mp hb)))
  obtain ⟨t, hrun, ht, hlinked, hsame, -⟩ := hset.bindHash port
    (by rw [Stack.modify, List.length_modify]; exact hlt) hoff
  refine ⟨t, ?_, ht, fun j => ?_, fun j hj => ?_, ?_⟩
  · unfold Stack.sockBind
    rw [hsock]
    exact hrun
  · rw [hlinked, ← hbind]
    rfl
  · rw [hsame, ← hface j hj, face, face, Stack.modify, List.getElem?_modify_ne _ _ (Ne.symm hj.ne)]
  · rw [hsame, face, socks_modify hnew]
    rfl

theorem Tidy.sockConnect (h : Tidy s) (addr : SockAddr) :
    ∃ t, s.alloc.sockConnect s.socks.length addr = some t ∧ Takes s addr.sport t := by
  obtain ⟨halloc, hbind, hhashed, hface, hsock⟩ := h.alloc
  obtain ⟨-, hnew, hlt⟩ := sock_cases hsock
  have hset : Tidy (s.alloc.modify s.socks.length fun tsk => tsk.setAddr addr) := halloc.modify fun _ => rfl
  have hoff : ¬ s.alloc.InBind s.socks.length := fun hb =>
    lt_irrefl _ (h.named _ (.inl ((hbind _).mp hb)))
  obtain ⟨bound, hrun, hbound, hlinked, hsame, hlist, hsocks⟩ := hset.bindHash addr.sport
    (by rw [Stack.modify, List.length_modify]; exact hlt) hoff
  have hplaced : ∀ tsk, (connecting tsk).skSport = tsk.skSport ∧ (connecting tsk).parent = tsk.parent := by
    intro tsk
    have hkept := connecting_placed tsk
    exact ⟨congrArg SockAddr.sport hkept.addr, hkept.parent⟩
  have hsent : Tidy (bound.modify s.socks.length connecting) := hbound.modify fun tsk => (hplaced tsk).2
  have hsock' : (bound.modify s.socks.length connecting).socks[s.socks.length]? =
      some (connecting (Host.recount (· + 1) (allocTcpSock.setAddr addr))) := by
    refine socks_modify ?_ _
    rw [hsocks]
    exact socks_modify (socks_modify hnew _) _
  have hoff' : ¬ (bound.modify s.socks.length connecting).Hashed s.socks.length := by
    intro hh
    have hh' : s.alloc.Hashed s.socks.length := by
      unfold Hashed at hh ⊢
      rwa [show (bound.modify s.socks.length connecting).hashList = _ from hlist] at hh
    exact lt_irrefl _ (h.named _ (.inr ((hhashed _).mp hh')))
  obtain ⟨t, hrun', ht, hlist', hsame'⟩ := hsent.hash_total hsock' rfl hoff'
  have hfaces : ∀ j, t.face j = (s.alloc.modify s.socks.length fun tsk => tsk.setAddr addr).face j := by
    intro j
    rw [hsame', face_modify _ _ _ hplaced, hsame]
  refine ⟨t, ?_, ht, fun j => ?_, fun j hj => ?_, ?_⟩
  · unfold Stack.sockConnect
    rw [hsock]
    simp only [hrun]
    exact hrun'
  · have hlinked' : t.InBind j ↔ bound.InBind j := by
      unfold InBind
      rw [hlist']
      rfl
    rw [hlinked', hlinked, ← hbind]
    rfl
  · rw [hfaces, ← hface j hj, face, face, Stack.modify, List.getElem?_modify_ne _ _ (Ne.symm hj.ne)]
  · rw [hfaces, face, socks_modify hnew]
    rfl

/-- **A bind is never refused**, and takes the first port where it names none. -/
theorem Tidy.portStep_bind (h : Tidy s) (address : Nat → U64) (port : U16) :
    ∃ t, s.portStep address (.bind port) = some (0, t) ∧
      Takes s (if port = 0 then BitVec.ofNat 16 portMin else port) t := by
  have halloc := h.alloc.1
  unfold Stack.portStep setSport
  by_cases hzero : port = 0
  · obtain ⟨t, hrun, ht⟩ := h.sockBind (BitVec.ofNat 16 portMin)
    simp only [hzero, if_true, halloc.getPort]
    exact ⟨t, by rw [if_neg (by decide), hrun]; rfl, ht⟩
  · obtain ⟨t, hrun, ht⟩ := h.sockBind port
    simp only [hzero, if_false, halloc.portInUse hzero, hrun]
    exact ⟨t, rfl, ht⟩

/-- **A connect always takes the first port.** -/
theorem Tidy.portStep_connect (h : Tidy s) (address : Nat → U64) (sip dip : U32) (dport : U16) :
    ∃ t, s.portStep address (.connect sip dip dport) = some ((portMin : Int), t) ∧
      Takes s (BitVec.ofNat 16 portMin) t := by
  obtain ⟨t, hrun, ht⟩ := h.sockConnect ⟨sip, BitVec.ofNat 16 portMin, dip, dport⟩
  unfold Stack.portStep connectTo
  simp only [h.alloc.1.getPort]
  exact ⟨t, by rw [if_neg (by decide), hrun]; rfl, ht⟩

/-! ### Leaving the table -/

theorem onRing_iff {bucket : U8} {ids : List Nat} (hids : LinkedList.OnList s.bindHashList bucket ids)
    (n : LinkedList.Node U8 Nat) :
    s.OnRing bucket n ↔ n ∈ (.head bucket :: ids.map .entry : List (LinkedList.Node U8 Nat)) := by
  cases n with
  | head b => simp [OnRing]
  | entry id =>
    have hlinked : LinkedList.Linked s.bindHashList bucket id ↔ id ∈ ids := by
      constructor
      · intro hyp
        obtain ⟨ids', hids', hmem⟩ := hyp
        exact hids'.unique hids ▸ hmem
      · exact fun hmem => ⟨ids, hids, hmem⟩
    simp [OnRing, hlinked]

/-- A socket that is settled leaves the table, if it was in it, and no other comes or goes. -/
theorem Tidy.unhash (h : Tidy s) (hsettled : s.Settled (.unhash id)) (hstep : s.PortStep address (.unhash id) t) :
    Tidy t ∧ (∀ j, t.InBind j → s.InBind j) ∧ ∀ j, t.face j = s.face j := by
  obtain ⟨result, hrun⟩ := hstep
  simp only [portStep] at hrun
  split at hrun
  · cases hrun
  rename_i tsk hsock
  obtain ⟨-, hsocks, hlt⟩ := sock_cases hsock
  obtain ⟨t', hunhash, heq⟩ := Option.map_eq_some_iff.mp hrun
  obtain ⟨-, rfl⟩ := Prod.mk.inj heq
  unfold Stack.bindUnhash at hunhash
  split at hunhash
  · cases hunhash
    exact ⟨h, fun j hj => hj, fun j => rfl⟩
  split at hunhash
  · cases hunhash
  rename_i bindHashList hdelete
  have htable : WellFormed bindHashList ∧ ∀ b j, LinkedList.Linked bindHashList b j →
      LinkedList.Linked s.bindHashList b j := by
    rcases hsettled with ⟨b, hb⟩ | hadj
    · obtain ⟨hwf, hlinked, -⟩ := h.bind.deleteEntry hb hdelete
      exact ⟨hwf, fun b j hj => ((hlinked b j).mp hj).1⟩
    · obtain ⟨p, q, hp, hq, rfl⟩ := LinkedList.Heap.deleteEntry_cases hdelete
      obtain ⟨hwf, hlinked⟩ := h.bind.unlink (p := p) (q := q) fun b ids hids => by
        have hring : s.OnRing b = (· ∈ (.head b :: ids.map .entry : List (LinkedList.Node U8 Nat))) :=
          funext fun n => propext (onRing_iff hids n)
        exact hring ▸ hadj p q b hp hq
      exact ⟨hwf, fun b j hj => (hlinked b j).mp hj⟩
  have hbind : ∀ j, (∃ b, LinkedList.Linked bindHashList b j) → s.InBind j :=
    fun j hj => hj.imp fun b => htable.2 b j
  have htidy : Tidy { s with bindHashList } :=
    ⟨h.hash, htable.1, fun j hj => h.named j (hj.imp_left (hbind j)), h.freed, h.orphan⟩
  have hsocks' : ({ s with bindHashList } : Stack).socks[id]? = some tsk := hsocks
  rw [freeTcpSock_eq hsocks', Option.some.injEq] at hunhash
  have hmodified : Tidy (Stack.modify { s with bindHashList } id (Host.recount (· - 1))) :=
    htidy.modify fun _ => rfl
  subst hunhash
  refine ⟨⟨hmodified.hash, hmodified.bind, hmodified.named, fun j hj => ?_, hmodified.orphan⟩, hbind, ?_⟩
  · have hlength : (Stack.modify { s with bindHashList } id (Host.recount (· - 1))).socks.length = s.socks.length :=
      List.length_modify ..
    rw [show ({ Stack.modify { s with bindHashList } id (Host.recount (· - 1)) with freed := _ } : Stack).socks.length
      = _ from hlength]
    dsimp only at hj
    split at hj
    · rcases List.mem_cons.mp hj with rfl | hj
      · exact hlt
      · exact h.freed j hj
    · exact h.freed j hj
  · exact fun j => face_modify _ id j fun _ => ⟨rfl, rfl⟩

theorem Tidy.holds_of_unhash (h : Tidy s) (hsettled : s.Settled (.unhash id))
    (hstep : s.PortStep address (.unhash id) t) {j : Nat} (hj : t.Holds port j) : s.Holds port j := by
  obtain ⟨-, hbind, hface⟩ := h.unhash hsettled hstep
  rw [holds_iff] at hj ⊢
  rw [hface] at hj
  exact ⟨hbind j hj.1, hj.2⟩

/-! ### Runs -/

/-- The tables are in order and ports unshared. -/
structure Sound (s : Stack) : Prop where
  tidy : Tidy s
  unshared : s.Unshared
  nonzero : ∀ j, ¬ s.Holds 0 j

theorem Sound.takes (h : Sound s) (hport : port ≠ 0) (hfree : ∀ j, ¬ s.Holds port j) (ht : Takes s port t) :
    Sound t where
  tidy := ht.tidy
  unshared := (ht.keeps_unshared h.tidy h.unshared).mpr hfree
  nonzero j hj := by
    rcases (ht.holds_iff h.tidy).mp hj with hold | ⟨-, hzero⟩
    · exact h.nonzero j hold
    · exact hport hzero.symm

/-- The port a bind takes is not zero. -/
theorem bind_ne_zero (port : U16) : (if port = 0 then BitVec.ofNat 16 portMin else port) ≠ 0 := by
  split
  · decide
  · assumption

theorem Sound.unhash (h : Sound s) (hsettled : s.Settled (.unhash id))
    (hstep : s.PortStep address (.unhash id) t) : Sound t := by
  have hholds : ∀ {port j}, t.Holds port j → s.Holds port j := h.tidy.holds_of_unhash hsettled hstep
  exact ⟨(h.tidy.unhash hsettled hstep).1, fun port j j' hj hj' => h.unshared port j j' (hholds hj) (hholds hj'),
    fun j hj => h.nonzero j (hholds hj)⟩

theorem Sound.step (h : Sound s) {e : PortEvent} (hsettled : s.Settled e) (hfree : s.Free e)
    (hstep : s.PortStep address e t) : Sound t := by
  cases e with
  | bind port =>
    obtain ⟨t', hrun, ht⟩ := h.tidy.portStep_bind address port
    obtain ⟨result, hstep⟩ := hstep
    obtain ⟨-, rfl⟩ := Prod.mk.inj (Option.some.inj (hrun.symm.trans hstep))
    exact h.takes (bind_ne_zero port) hfree ht
  | connect sip dip dport =>
    obtain ⟨t', hrun, ht⟩ := h.tidy.portStep_connect address sip dip dport
    obtain ⟨result, hstep⟩ := hstep
    obtain ⟨-, rfl⟩ := Prod.mk.inj (Option.some.inj (hrun.symm.trans hstep))
    exact h.takes (by decide) hfree ht
  | unhash id => exact h.unhash hsettled hstep

theorem Sound.refuses_iff (h : Sound s) {e : PortEvent} (hsettled : s.Settled e) :
    s.Refuses address e ↔ s.Free e := by
  cases e with
  | bind port =>
    obtain ⟨t, hrun, ht⟩ := h.tidy.portStep_bind address port
    constructor
    · exact fun hyp => (ht.keeps_unshared h.tidy h.unshared).mp (hyp.1 t ⟨0, hrun⟩)
    · intro hfree
      refine ⟨fun t ht => (h.step hsettled hfree ht).unshared, fun ⟨j, hj⟩ => ?_⟩
      by_cases hzero : port = 0
      · exact absurd (hzero ▸ hj) (h.nonzero j)
      · have hnot := hfree j
        rw [if_neg hzero] at hnot
        exact absurd hj hnot
  | connect sip dip dport =>
    obtain ⟨t, hrun, ht⟩ := h.tidy.portStep_connect address sip dip dport
    constructor
    · exact fun hyp => (ht.keeps_unshared h.tidy h.unshared).mp (hyp.1 t ⟨_, hrun⟩)
    · exact fun hfree => ⟨fun t ht => (h.step hsettled hfree ht).unshared, trivial⟩
  | unhash id => exact iff_of_true ⟨fun t ht => (h.unhash hsettled ht).unshared, trivial⟩ trivial

theorem sound_empty : Sound empty where
  tidy :=
    { hash := inv_empty.hash
      bind := inv_empty.bind
      named := fun id hid => (inv_empty.named id hid).1
      freed := inv_empty.freed
      orphan := fun id port parent hface => by simp [face, empty] at hface }
  unshared := fun port j j' hj => by simp [Holds, empty] at hj
  nonzero := fun j hj => by simp [Holds, empty] at hj

/-- **Ports are not shared** along a run, and binds refused as they should be, exactly if no
call takes a port that is held; sockets that are unhashed being settled. -/
theorem unshared_iff (address : Nat → U64) (events : List PortEvent)
    (hsettled : Along (PortStep address) Settled empty events) :
    Along (PortStep address) (Refuses address) empty events ↔ Along (PortStep address) Free empty events :=
  along_iff_of (fun _ _ _ h hsettled hfree hstep => h.step hsettled hfree hstep)
    (fun _ _ h hsettled => h.refuses_iff hsettled) sound_empty hsettled

/-- A bind, the socket unhashed, and another bind. -/
theorem unshared_rebound :
    Along (PortStep fun _ => 0) (Refuses fun _ => 0) empty [.bind 80, .unhash 0, .bind 81] := by
  have hbound : ∀ s, PortStep (fun _ => 0) empty (.bind 80) s → Takes empty 80 s := by
    intro s hs
    obtain ⟨result, hrun⟩ := hs
    obtain ⟨s', hrun', htakes⟩ := sound_empty.tidy.portStep_bind (fun _ => 0) 80
    obtain ⟨-, rfl⟩ := Prod.mk.inj (Option.some.inj (hrun'.symm.trans hrun))
    exact htakes
  have hlinked : ∀ s, PortStep (fun _ => 0) empty (.bind 80) s → s.Settled (.unhash 0) :=
    fun s hs => .inl (((hbound s hs).bind 0).mpr (.inr rfl))
  have hsettled : Along (PortStep fun _ => 0) Settled empty [.bind 80, .unhash 0, .bind 81] :=
    ⟨trivial, fun s hs => ⟨hlinked s hs, fun t _ => ⟨trivial, fun _ _ => trivial⟩⟩⟩
  refine (unshared_iff _ _ hsettled).mpr ⟨fun j hj => by simp [Holds, empty] at hj, fun s hs => ⟨trivial, ?_⟩⟩
  refine fun t ht => ⟨fun j hj => ?_, fun _ _ => trivial⟩
  have hheld : s.Holds 81 j := (hbound s hs).tidy.holds_of_unhash (hlinked s hs) ht hj
  rcases ((hbound s hs).holds_iff sound_empty.tidy).mp hheld with hold | ⟨-, hport⟩
  · simp [Holds, empty] at hold
  · exact absurd hport (by decide)

/-- The second bind to a port succeeds too, and both sockets hold it. -/
theorem port_bound_twice : ¬ Along (PortStep fun _ => 0) (Refuses fun _ => 0) empty [.bind 80, .bind 80] := by
  intro h
  obtain ⟨s, hrun, hs⟩ := sound_empty.tidy.portStep_bind (fun _ => 0) 80
  have hsound := sound_empty.takes (by decide) (fun j hj => by simp [Holds, empty] at hj) hs
  have hholds : s.Holds 80 0 := (hs.holds_iff sound_empty.tidy).mpr (.inr ⟨rfl, rfl⟩)
  have hfree := (hsound.refuses_iff (e := .bind 80) trivial).mp (h.2 s ⟨0, hrun⟩).1
  exact hfree 0 hholds

end Stack

end NetStack.Tcp
