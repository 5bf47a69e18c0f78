import NetStack.Tcp.References

/-! Whole runs of a host, and the counters in them.

The calls keep the counters right as long as none of them links a node that is linked, no
SYN reaches a listener, whose child would start from a copy of its counter, and no timer
closes a socket that is still in a lookup table, which it takes off the bind table only.
Any other call that returns breaks them at once (`counted_iff`). -/
namespace NetStack.Tcp.Stack

/-! ### The condition -/

/-- The walk of `tcp_hash` finds a socket with the 4-tuple that socket `id` is to have. -/
def Taken (s : Stack) (id : Nat) (addr : SockAddr) : Prop :=
  ∃ j, (s.modify id fun tsk => tsk.setAddr addr).lookupEstablished addr = some (some j)

/-- The time-wait timer of the socket is due. -/
def Expired (tsk : TcpSock) (now : Int) : Prop := tsk.timewait.due now = true

/-- No node is linked twice, no listener makes a child, and no timer closes a socket that
is in a lookup table. -/
def Fits (s : Stack) : Event → Prop
  | .bind id _ => ¬ s.InBind id
  | .listen id _ => ¬ s.Hashed id
  | .connect id addr => ¬ s.InBind id ∧ (s.Hashed id → s.Taken id addr)
  | .packet _ _ _ packet => ∀ id tsk parent, s.handler packet = some (id, tsk, parent) →
      tsk.state = .listen → hasFlag packet.flags tcpSyn = true → hasFlag packet.flags tcpRst = true
  | .retransTimer id => ∀ tsk, s.sock id = some tsk → tsk.GivesUp → ¬ s.Hashed id
  | .timewaitTimer id now => ∀ tsk, s.sock id = some tsk → Expired tsk now → ¬ s.Hashed id
  | _ => True

/-- The condition on a call, where it returns. -/
def Balanced (s : Stack) (e : Event) : Prop := (∃ t, Step s e t) → Fits s e

/-! ### What the calls keep -/

section
variable {s s' : Stack} {id : Nat} {tsk tsk' : TcpSock}

theorem Held.update (h : Held s id tsk) (hrefs : tsk'.refCnt = tsk.refCnt)
    (hstate : tsk'.state = .closed ↔ tsk.state = .closed) (hparent : tsk'.parent = tsk.parent)
    (hqueue : tsk'.acceptQueue = tsk.acceptQueue) : Held s id tsk' where
  refs := hrefs.trans h.refs
  used := h.used
  closed := fun hclosed => h.closed (hstate.mp hclosed)
  node := fun hopen => h.node fun hclosed => hopen (hstate.mpr hclosed)
  bindNode := h.bindNode
  parent := hparent.trans h.parent
  queue := hqueue.trans h.queue

theorem Held.settled {outcome : Outcome} (h : Held s id tsk) (hsettled : Settled tsk outcome)
    (hkept : outcome.unhash = false) : Held s id outcome.tsk :=
  h.update hsettled.placed.refCnt (hsettled.kept hkept) hsettled.placed.parent hsettled.placed.acceptQueue

theorem Held.steady (h : Held s id tsk) (hsteady : Steady tsk tsk') : Held s id tsk' :=
  h.update hsteady.placed.refCnt (by rw [hsteady.state]) hsteady.placed.parent hsteady.placed.acceptQueue

/-- Fields of a socket change, and it stays in order. -/
theorem Inv.modify (h : Inv s) (hsock : s.sock id = some tsk) {f : TcpSock → TcpSock}
    (hheld : Held s id (f tsk)) : Inv (s.modify id f) := by
  obtain ⟨hlive, hsocks, -⟩ := sock_cases hsock
  refine ((h.around id).modify f).inv (socks_modify hsocks f) (fun _ => ?_) fun hmem => absurd hmem hlive
  exact hheld.congr .rfl .rfl (fun _ => rfl) fun _ => rfl

/-- Where the writes stand is no part of it. -/
theorem inv_writes (h : Inv s) (writes : Nat → WriteState) : Inv { s with writes } where
  hash := h.hash
  bind := h.bind
  named := h.named
  freed := h.freed
  live := fun j tsk hj => (h.live j tsk hj).congr .rfl .rfl (fun _ => rfl) fun _ => rfl

theorem sockBind_cases {port : U16} (hrun : s.sockBind id port = some s') :
    ∃ tsk, s.sock id = some tsk ∧
      (s.modify id fun tsk => { tsk with skSport := port }).bindHash id port = some s' := by
  unfold sockBind at hrun
  split at hrun
  · cases hrun
  · exact ⟨_, ‹_›, hrun⟩

theorem inv_bind (h : Inv s) {port : U16} (hfits : ¬ s.InBind id) (hrun : s.sockBind id port = some s') :
    Inv s' := by
  obtain ⟨tsk, hsock, hbind⟩ := sockBind_cases hrun
  have hheld := h.live id tsk hsock
  obtain ⟨hlive, hsocks, -⟩ := sock_cases hsock
  exact ((h.around id).modify _).bindHash (socks_modify hsocks _) hlive hheld.refs hfits hheld.closed
    hheld.node hheld.parent hheld.queue hbind

theorem hash_listen {tsk : TcpSock} (hsocks : s.socks[id]? = some tsk) (hstate : tsk.state = .listen) :
    s.hash id = s.linkHash id (.listen (portBucket tsk.skSport)) := by
  unfold Stack.hash
  simp only [hsocks, hstate]

theorem sockListen_cases {backlog : Int} (hrun : s.sockListen id backlog = some s') :
    ∃ tsk t, s.sock id = some tsk ∧
      (s.modify id fun tsk => { tsk with backlog, state := .listen }).linkHash id t = some s' := by
  unfold sockListen at hrun
  split at hrun
  · cases hrun
  · rename_i tsk hsock
    have hset := socks_modify (sock_cases hsock).2.1 fun tsk => { tsk with backlog, state := .listen }
    rw [hash_listen hset rfl] at hrun
    exact ⟨tsk, _, hsock, hrun⟩

theorem inv_listen (h : Inv s) {backlog : Int} (hfits : ¬ s.Hashed id)
    (hrun : s.sockListen id backlog = some s') : Inv s' := by
  obtain ⟨tsk, t, hsock, hlink⟩ := sockListen_cases hrun
  have hheld := h.live id tsk hsock
  obtain ⟨hlive, hsocks, -⟩ := sock_cases hsock
  exact ((h.around id).modify _).linkHash (socks_modify hsocks _) hlive hheld.refs TcpState.noConfusion
    hfits hheld.bindNode hheld.parent hheld.queue hlink

/-- `tcp_hash` of a socket with a 4-tuple. -/
theorem hash_cases {tsk : TcpSock} (hsocks : s.socks[id]? = some tsk) (hclosed : tsk.state ≠ .closed)
    (hlisten : tsk.state ≠ .listen) (hrun : s.hash id = some s') :
    (∃ j, s.lookupEstablished tsk.addr = some (some j)) ∧ s' = s ∨
      s.lookupEstablished tsk.addr = some none ∧ s.linkHash id tsk.addr.bucket = some s' := by
  unfold Stack.hash at hrun
  simp only [hsocks] at hrun
  split at hrun
  · cases hrun
  · cases hrun
    exact .inl ⟨⟨_, ‹_›⟩, rfl⟩
  · exact .inr ⟨‹_›, hrun⟩

/-- A lookup goes by the links and the addresses. -/
theorem lookupEstablished_congr (hhash : s'.hashList = s.hashList)
    (hlength : s'.socks.length = s.socks.length)
    (haddr : ∀ j : Nat, (s'.socks[j]?).map TcpSock.addr = (s.socks[j]?).map TcpSock.addr) (addr : SockAddr) :
    s'.lookupEstablished addr = s.lookupEstablished addr := by
  unfold lookupEstablished findSock
  rw [hhash, hlength]
  congr 1
  funext j
  have hany := congrArg (Option.any fun a : SockAddr => a = addr) (haddr j)
  simpa only [Option.any_map] using hany

theorem Held.connect (h : Held s id tsk) (hnode : s.Hashed id ∨ (s.hashList (.entry id)).next = none)
    (hrefs : tsk'.refCnt = tsk.refCnt) (hstate : tsk'.state = .synSent)
    (hparent : tsk'.parent = tsk.parent) (hqueue : tsk'.acceptQueue = tsk.acceptQueue) :
    Held s id tsk' where
  refs := hrefs.trans h.refs
  used := h.used
  closed := fun hclosed => by simp [hstate] at hclosed
  node := fun _ => hnode
  bindNode := h.bindNode
  parent := hparent.trans h.parent
  queue := hqueue.trans h.queue

/-- What a socket is once `tcp_sock_connect` has sent its SYN. -/
def connecting (tsk : TcpSock) : TcpSock :=
  { (tsk.setRetransTimer.control tcpSyn).1 with state := .synSent }

theorem connecting_placed (tsk : TcpSock) : Placed tsk (connecting tsk) :=
  (tsk.setRetransTimer_placed.trans (tsk.setRetransTimer.control_placed tcpSyn)).trans ⟨rfl, rfl, rfl, rfl⟩

/-- `tcp_sock_connect` in its parts: the socket with its new address is bound, it sends,
and it is entered in the established table, unless its 4-tuple is taken. -/
theorem sockConnect_cases {addr : SockAddr} (hrun : s.sockConnect id addr = some s') :
    ∃ tsk bound, s.sock id = some tsk ∧
      (s.modify id fun tsk => tsk.setAddr addr).bindHash id addr.sport = some bound ∧
      bound.hashList = s.hashList ∧ bound.freed = s.freed ∧
      bound.socks[id]? = some (Host.recount (· + 1) (tsk.setAddr addr)) ∧
      (s.Taken id addr ∧ s' = bound.modify id connecting ∨
        ¬ s.Taken id addr ∧ ∃ t, (bound.modify id connecting).linkHash id t = some s') := by
  unfold sockConnect at hrun
  split at hrun
  · cases hrun
  · rename_i tsk hsock
    obtain ⟨-, hsocks, -⟩ := sock_cases hsock
    split at hrun
    · cases hrun
    · rename_i bound hbind
      have hset := socks_modify hsocks fun tsk => tsk.setAddr addr
      have hbound := hbind
      unfold bindHash at hbound
      split at hbound
      · cases hbound
      · rename_i bindHashList hadd
        obtain rfl := Option.some.inj hbound
        have hset' : ({ s.modify id fun tsk => tsk.setAddr addr with bindHashList } : Stack).socks[id]? =
            some (tsk.setAddr addr) := hset
        have hcount := socks_modify hset' (Host.recount (· + 1))
        refine ⟨tsk, _, hsock, hbind, rfl, rfl, hcount, ?_⟩
        have hnew := socks_modify hcount connecting
        have haddr : (connecting (Host.recount (· + 1) (tsk.setAddr addr))).addr = addr :=
          (connecting_placed _).addr
        have hlookup : ((Stack.modify { s.modify id fun tsk => tsk.setAddr addr with bindHashList } id
            (Host.recount (· + 1))).modify id connecting).lookupEstablished addr =
              (s.modify id fun tsk => tsk.setAddr addr).lookupEstablished addr := by
          apply lookupEstablished_congr
          · rfl
          · simp [Stack.modify]
          · intro j
            unfold Stack.modify
            simp only [List.modify_modify_eq]
            by_cases hj : j = id
            · subst hj
              simp only [List.getElem?_modify_eq, hsocks]
              exact congrArg some (haddr.trans rfl)
            · simp only [List.getElem?_modify_ne _ _ (Ne.symm hj)]
        have hcases := hash_cases hnew TcpState.noConfusion TcpState.noConfusion hrun
        rw [haddr, hlookup] at hcases
        obtain ⟨htaken, rfl⟩ | ⟨hfree, hlink⟩ := hcases
        · exact .inl ⟨htaken, rfl⟩
        · refine .inr ⟨fun htaken => ?_, _, hlink⟩
          obtain ⟨j, hj⟩ := htaken
          rw [hfree] at hj
          cases hj

theorem inv_connect (h : Inv s) {addr : SockAddr} (hbind : ¬ s.InBind id)
    (hhash : s.Hashed id → s.Taken id addr) (hrun : s.sockConnect id addr = some s') : Inv s' := by
  obtain ⟨tsk, bound, hsock, hrunBind, hlist, hfreed, hsocks, hrest⟩ := sockConnect_cases hrun
  have hheld := h.live id tsk hsock
  obtain ⟨hlive, hold, -⟩ := sock_cases hsock
  have hbound : Inv bound :=
    ((h.around id).modify _).bindHash (socks_modify hold _) hlive hheld.refs hbind hheld.closed
      hheld.node hheld.parent hheld.queue hrunBind
  have hsame : bound.Hashed id ↔ s.Hashed id := by
    unfold Hashed
    rw [hlist]
  have hlive' : id ∉ bound.freed := hfreed ▸ hlive
  have hsock' := sock_of_mem hlive' hsocks
  have hheld' := hbound.live id _ hsock'
  -- A socket that is in no table is fresh, and its nodes are zero.
  have hnode : bound.Hashed id ∨ (bound.hashList (.entry id)).next = none := by
    rw [hsame, hlist]
    by_cases hon : s.Hashed id
    · exact .inl hon
    · right
      by_contra hne
      exact (hheld.used (.inl hne)).elim hbind hon
  have hplaced := connecting_placed (Host.recount (· + 1) (tsk.setAddr addr))
  have hnew := hheld'.connect hnode hplaced.refCnt rfl hplaced.parent hplaced.acceptQueue
  obtain ⟨-, rfl⟩ | ⟨hfree, t, hlink⟩ := hrest
  · exact hbound.modify hsock' hnew
  · have hoff : ¬ bound.Hashed id := fun hon => hfree (hhash (hsame.mp hon))
    exact ((hbound.around id).modify _).linkHash (socks_modify hsocks _) hlive' hnew.refs
      TcpState.noConfusion hoff hnew.bindNode hnew.parent hnew.queue hlink

/-- A call that gives no child, on a socket without a parent. -/
theorem inv_commit (h : Inv s) (hsock : s.sock id = some tsk) {outcome : Outcome}
    (hsettled : Settled tsk outcome) (hchild : outcome.child = none)
    (hrun : s.commit id outcome = some s') : Inv s' := by
  have hheld := h.live id tsk hsock
  obtain ⟨hlive, hsocks, -⟩ := sock_cases hsock
  have hset := socks_modify hsocks fun _ => outcome.tsk
  have hparent : outcome.tsk.parent = none := hsettled.placed.parent.trans hheld.parent
  have hqueue : (s.modify id fun _ => outcome.tsk).acceptEnqueue id = s.modify id fun _ => outcome.tsk := by
    unfold acceptEnqueue
    rw [hset, Option.bind_some, hparent]
  unfold commit at hrun
  simp only [hqueue, ite_self, hchild] at hrun
  cases hunhash : outcome.unhash with
  | false =>
    rw [hunhash] at hrun
    obtain rfl := Option.some.inj hrun
    exact h.modify hsock (hheld.settled hsettled hunhash)
  | true =>
    rw [hunhash] at hrun
    obtain ⟨hclosed, hopen⟩ := hsettled.closed hunhash
    exact ((h.around id).modify _).unhash hset hlive (hsettled.placed.refCnt.trans hheld.refs) hclosed
      (hheld.node hopen) hparent (hsettled.placed.acceptQueue.trans hheld.queue) hrun

theorem handler_sock {packet : Packet} {parent : Option TcpSock}
    (hhandler : s.handler packet = some (id, tsk, parent)) :
    s.sock id = some tsk ∧ s.sockLookup (tcpCbInit packet) = some (some id) ∧
      parent = tsk.parent.bind s.sock := by
  unfold handler at hhandler
  split at hhandler
  · cases hhandler
  · cases hhandler
  · rename_i hlookup
    split at hhandler
    · cases hhandler
    · rename_i hsock
      cases hhandler
      exact ⟨hsock, hlookup, rfl⟩

theorem handlePacket_cases {now : Int} {iss : U32} {sleeps : List (List Nat)} {packet : Packet}
    (hrun : s.handlePacket now iss sleeps packet = some s') :
    ∃ id tsk parent outcome, s.handler packet = some (id, tsk, parent) ∧
      tcpProcess now id iss parent sleeps tsk (tcpCbInit packet) = some outcome ∧
      s.commit id outcome = some s' := by
  unfold handlePacket at hrun
  split at hrun
  · cases hrun
  · rename_i id tsk parent hhandler
    split at hrun
    · cases hrun
    · rename_i outcome hout
      exact ⟨id, tsk, parent, outcome, hhandler, hout, hrun⟩

theorem tcpProcess_no_child {now : Int} {self : Nat} {iss : U32} {parent : Option TcpSock}
    {sleeps : List (List Nat)} {cb : TcpCb} {outcome : Outcome}
    (hfits : tsk.state = .listen → hasFlag cb.flags tcpSyn = true → hasFlag cb.flags tcpRst = true)
    (hout : tcpProcess now self iss parent sleeps tsk cb = some outcome) : outcome.child = none := by
  by_cases hstate : tsk.state = .listen
  · unfold tcpProcess at hout
    split at hout
    · cases hout
      simp [TcpSock.sockClose, hstate, TcpSock.only]
    · rename_i hrst
      simp only [hstate] at hout
      cases hout
      have hsyn : hasFlag cb.flags tcpSyn ≠ true := fun hsyn => hrst (hfits hstate hsyn)
      simp [TcpSock.processListen, hsyn, TcpSock.only]
  · exact tcpProcess_child hstate hout

theorem inv_packet (h : Inv s) {now : Int} {iss : U32} {sleeps : List (List Nat)} {packet : Packet}
    (hfits : Fits s (.packet now iss sleeps packet))
    (hrun : s.handlePacket now iss sleeps packet = some s') : Inv s' := by
  obtain ⟨id, tsk, parent, outcome, hhandler, hout, hcommit⟩ := handlePacket_cases hrun
  have hchild : outcome.child = none := tcpProcess_no_child (hfits id tsk parent hhandler) hout
  exact inv_commit h (handler_sock hhandler).1 (tcpProcess_settled hout) hchild hcommit

theorem sockClose_child (tsk : TcpSock) : tsk.sockClose.child = none := by
  unfold TcpSock.sockClose
  split <;> rfl

/-- A timeout that gives the connection up takes the socket off the bind table, any other
keeps it where it is. -/
theorem scanRetransTimer_cases (h : Inv s) (hrun : s.scanRetransTimer id = some s') :
    ∃ tsk, s.sock id = some tsk ∧
      (tsk.GivesUp ∧ (s.modify id fun _ => tsk.scanRetransTimer.1).bindUnhash id = some s' ∨
        ¬ tsk.GivesUp ∧ s' = s.modify id fun _ => tsk.scanRetransTimer.1) := by
  unfold Stack.scanRetransTimer at hrun
  split at hrun
  · cases hrun
  · rename_i tsk hsock
    obtain ⟨-, hgives, hkeeps⟩ := tsk.scanRetransTimer_placed
    refine ⟨tsk, hsock, ?_⟩
    dsimp only at hrun
    by_cases hgive : tsk.GivesUp
    · rw [if_pos ⟨hgive.2.1, hgives hgive, (h.live id tsk hsock).parent⟩] at hrun
      exact .inl ⟨hgive, hrun⟩
    · rw [if_neg fun hyp => hyp.1 ((hkeeps hgive).symm.trans hyp.2.1)] at hrun
      exact .inr ⟨hgive, (Option.some.inj hrun).symm⟩

theorem inv_retransTimer (h : Inv s) (hfits : Fits s (.retransTimer id))
    (hrun : s.scanRetransTimer id = some s') : Inv s' := by
  obtain ⟨tsk, hsock, hcases⟩ := scanRetransTimer_cases h hrun
  have hheld := h.live id tsk hsock
  obtain ⟨hplaced, hgives, hkeeps⟩ := tsk.scanRetransTimer_placed
  obtain ⟨hlive, hsocks, -⟩ := sock_cases hsock
  obtain ⟨hgive, hunhash⟩ | ⟨hgive, rfl⟩ := hcases
  · exact ((h.around id).modify _).bindUnhash (socks_modify hsocks _) hlive
      (hplaced.refCnt.trans hheld.refs) (hgives hgive) (hfits tsk hsock hgive) hheld.bindNode
      (hplaced.parent.trans hheld.parent) (hplaced.acceptQueue.trans hheld.queue) hunhash
  · exact h.modify hsock (hheld.steady ⟨hplaced, hkeeps hgive⟩)

theorem scanTimer_cases {now : Int} (hrun : s.scanTimer id now = some s') :
    ∃ tsk, s.sock id = some tsk ∧
      (Expired tsk now ∧ (s.modify id fun tsk => { tsk with state := .closed }).bindUnhash id = some s' ∨
        ¬ Expired tsk now ∧ s' = s) := by
  unfold scanTimer at hrun
  split at hrun
  · cases hrun
  · refine ⟨_, ‹_›, ?_⟩
    split at hrun
    · exact .inl ⟨‹_›, hrun⟩
    · exact .inr ⟨‹_›, (Option.some.inj hrun).symm⟩

theorem inv_timewaitTimer (h : Inv s) {now : Int} (hfits : Fits s (.timewaitTimer id now))
    (hrun : s.scanTimer id now = some s') : Inv s' := by
  obtain ⟨tsk, hsock, hcases⟩ := scanTimer_cases hrun
  have hheld := h.live id tsk hsock
  obtain ⟨hlive, hsocks, -⟩ := sock_cases hsock
  obtain ⟨hexpired, hunhash⟩ | ⟨-, rfl⟩ := hcases
  · exact ((h.around id).modify _).bindUnhash (socks_modify hsocks _) hlive hheld.refs rfl
      (hfits tsk hsock hexpired) hheld.bindNode hheld.parent hheld.queue hunhash
  · exact h

/-- Only children are accepted. -/
theorem sockAccept_none (h : Inv s) (id : Nat) : s.sockAccept id = none := by
  unfold sockAccept
  cases hsock : s.sock id with
  | none => rfl
  | some tsk => simp [(h.live id tsk hsock).queue]

/-- A fresh socket's nodes are in no table. -/
theorem alloc_tables (hhash : LinkedList.WellFormed s.hashList) (hbind : LinkedList.WellFormed s.bindHashList)
    (hoff : ¬ s.InBind s.socks.length ∧ ¬ s.Hashed s.socks.length) :
    (LinkedList.WellFormed s.alloc.hashList ∧ ∀ j, s.alloc.Hashed j ↔ s.Hashed j) ∧
      LinkedList.WellFormed s.alloc.bindHashList ∧ ∀ j, s.alloc.InBind j ↔ s.InBind j := by
  obtain ⟨hhash, hhashed⟩ := hhash.congr s.alloc.hashList fun n hn => by
    refine Function.update_of_ne ?_ _ _
    intro heq
    obtain rfl := heq
    exact hoff.2 (hn _ rfl)
  obtain ⟨hbind, hbound⟩ := hbind.congr s.alloc.bindHashList fun n hn => by
    refine Function.update_of_ne ?_ _ _
    intro heq
    obtain rfl := heq
    exact hoff.1 (hn _ rfl)
  exact ⟨⟨hhash, fun j => exists_congr fun t => hhashed t j⟩, hbind,
    fun j => exists_congr fun t => hbound t j⟩

theorem inv_alloc (h : Inv s) : Inv s.alloc := by
  have hoff : ¬ s.InBind s.socks.length ∧ ¬ s.Hashed s.socks.length :=
    ⟨fun hb => Nat.lt_irrefl _ (h.named _ (.inl hb)).1, fun hh => Nat.lt_irrefl _ (h.named _ (.inr hh)).1⟩
  have hnew : s.socks.length ∉ s.freed := fun hmem => Nat.lt_irrefl _ (h.freed _ hmem)
  obtain ⟨⟨hhash, hhashed'⟩, hbind, hbound'⟩ := alloc_tables h.hash h.bind hoff
  have hlength : s.alloc.socks.length = s.socks.length + 1 := by simp [alloc]
  refine ⟨hhash, hbind, fun j hj => ?_, fun j hj => ?_, fun j tsk hj => ?_⟩
  · obtain ⟨hlt, hlive⟩ := h.named j (by rwa [hbound', hhashed'] at hj)
    exact ⟨by omega, hlive⟩
  · have := h.freed j hj
    omega
  · obtain ⟨hlive, hj, hlt⟩ := sock_cases hj
    by_cases hold : j = s.socks.length
    · subst hold
      have htsk : tsk = allocTcpSock := by
        simpa [alloc] using hj.symm
      subst htsk
      have hzero : (s.alloc.hashList (.entry s.socks.length)).next = none := by simp [alloc]
      have hzero' : (s.alloc.bindHashList (.entry s.socks.length)).next = none := by simp [alloc]
      refine ⟨?_, fun hused => ?_, fun _ => by rw [hhashed']; exact hoff.2, fun hopen => absurd rfl hopen,
        .inr hzero', rfl, rfl⟩
      · classical
        rw [links_eq, if_neg (by rw [hbound']; exact hoff.1), if_neg (by rw [hhashed']; exact hoff.2)]
        rfl
      · exact absurd hused (by simp [Used, hzero, hzero'])
    · have hj : s.socks[j]? = some tsk := by
        rw [← hj]
        simp only [alloc]
        rw [List.getElem?_append_left (by omega)]
      have hheld := h.live j tsk (sock_of_mem hlive hj)
      refine hheld.congr (hbound' j) (hhashed' j) (fun _ => ?_) fun _ => ?_
      all_goals exact Function.update_of_ne (by simpa using hold) _ _

/-- **One call that fits keeps the invariant.** -/
theorem inv_step (s : Stack) (e : Event) (t : Stack) (h : Inv s) (hbalanced : Balanced s e)
    (hstep : Step s e t) : Inv t := by
  have hfits := hbalanced ⟨t, hstep⟩
  cases e with
  | alloc =>
    obtain rfl := Option.some.inj hstep
    exact inv_alloc h
  | bind id port => exact inv_bind h hfits hstep
  | listen id backlog => exact inv_listen h hfits hstep
  | connect id addr => exact inv_connect h hfits.1 hfits.2 hstep
  | accept id =>
    have hnone := sockAccept_none h id
    exact absurd (hnone.symm.trans hstep) (by simp)
  | close id =>
    have hrun : s.sockClose id = some t := hstep
    unfold sockClose at hrun
    split at hrun
    · cases hrun
    · rename_i tsk hsock
      exact inv_commit h hsock tsk.sockClose_settled (sockClose_child tsk) hrun
  | read id len =>
    have hrun : s.sockRead id len = some t := hstep
    unfold sockRead at hrun
    split at hrun
    · cases hrun
    · rename_i hread
      obtain ⟨tsk, hsock, hread⟩ := Option.bind_eq_some_iff.mp hread
      cases hrun
      exact h.modify hsock ((h.live id tsk hsock).steady (TcpSock.sockRead_steady hread))
  | write id buf =>
    have hrun : s.sockWrite id buf = some t := hstep
    unfold sockWrite at hrun
    split at hrun
    · rename_i tsk hsock _
      cases hrun
      exact inv_writes (h.modify hsock ((h.live id tsk hsock).steady (tsk.sockWrite_steady buf))) _
    · cases hrun
  | resume id =>
    have hrun : s.resume id = some t := hstep
    unfold resume at hrun
    split at hrun
    · cases hrun
    · rename_i result hresume
      obtain ⟨tsk, hsock, hresume⟩ := Option.bind_eq_some_iff.mp hresume
      cases hrun
      exact inv_writes (h.modify hsock ((h.live id tsk hsock).steady (TcpSock.writeResume_steady hresume))) _
  | packet now iss sleeps packet => exact inv_packet h hfits hstep
  | retransTimer id => exact inv_retransTimer h hfits hstep
  | timewaitTimer id now => exact inv_timewaitTimer h hfits hstep

end

/-! ### What any other call breaks -/

section
variable {s t : Stack} {id : Nat} {tsk : TcpSock}

theorem one_le_links (h : s.InBind id ∨ s.Hashed id) : 1 ≤ s.links id := by
  classical
  rw [links_eq]
  split <;> split <;> simp_all

theorem links_le_of_bound (hhash : t.Hashed id ↔ s.Hashed id) (hbind : s.InBind id) :
    t.links id ≤ s.links id := by
  classical
  rw [links_eq, links_eq, if_pos hbind]
  simp only [hhash]
  split <;> split <;> omega

theorem links_le_of_hashed (hbind : t.InBind id ↔ s.InBind id) (hhash : s.Hashed id) :
    t.links id ≤ s.links id := by
  classical
  rw [links_eq, links_eq, if_pos hhash]
  simp only [hbind]
  split <;> split <;> omega

/-- The counter is ahead of the tables. -/
theorem not_counted_of_lt (id : Nat) (hsock : t.sock id = some tsk) (hlt : t.links id < tsk.refCnt) : ¬ Counted t := by
  intro h
  have := h.refs id tsk hsock
  omega

/-- What `tcp_hash` leaves when it links the socket: one reference more. -/
theorem linkHash_sock {u : HashHead} (hsock : s.sock id = some tsk) (hrun : s.linkHash id u = some t) :
    t.sock id = some (Host.recount (· + 1) tsk) ∧ t.bindHashList = s.bindHashList := by
  obtain ⟨hlive, hsocks, -⟩ := sock_cases hsock
  unfold Stack.linkHash at hrun
  split at hrun
  · cases hrun
  · cases hrun
    exact ⟨sock_of_mem hlive (socks_modify hsocks _), rfl⟩

theorem bindHash_sock {port : U16} (hsock : s.sock id = some tsk) (hrun : s.bindHash id port = some t) :
    t.sock id = some (Host.recount (· + 1) tsk) ∧ t.hashList = s.hashList := by
  obtain ⟨hlive, hsocks, -⟩ := sock_cases hsock
  unfold Stack.bindHash at hrun
  split at hrun
  · cases hrun
  · cases hrun
    exact ⟨sock_of_mem hlive (socks_modify hsocks _), rfl⟩

theorem sock_modify (hsock : s.sock id = some tsk) (f : TcpSock → TcpSock) :
    (s.modify id f).sock id = some (f tsk) := by
  obtain ⟨hlive, hsocks, -⟩ := sock_cases hsock
  exact sock_of_mem hlive (socks_modify hsocks f)

theorem hashed_congr (id : Nat) (hlist : t.hashList = s.hashList) : t.Hashed id ↔ s.Hashed id := by
  unfold Hashed
  rw [hlist]

theorem inBind_congr (id : Nat) (hlist : t.bindHashList = s.bindHashList) : t.InBind id ↔ s.InBind id := by
  unfold InBind
  rw [hlist]

theorem breaks_bind (h : Inv s) {port : U16} (hbound : s.InBind id)
    (hrun : s.sockBind id port = some t) : ¬ Counted t := by
  obtain ⟨tsk, hsock, hbind⟩ := sockBind_cases hrun
  have hrefs := (h.live id tsk hsock).refs
  obtain ⟨hnew, hlist⟩ := bindHash_sock (sock_modify hsock _) hbind
  apply not_counted_of_lt _ hnew
  have hle := links_le_of_bound (hashed_congr id hlist) hbound
  show t.links id < tsk.refCnt + 1
  have hsame : (s.modify id fun tsk => { tsk with skSport := port }).links id = s.links id := rfl
  omega

theorem breaks_listen (h : Inv s) {backlog : Int} (hhash : s.Hashed id)
    (hrun : s.sockListen id backlog = some t) : ¬ Counted t := by
  obtain ⟨tsk, u, hsock, hlink⟩ := sockListen_cases hrun
  have hrefs := (h.live id tsk hsock).refs
  obtain ⟨hnew, hlist⟩ := linkHash_sock (sock_modify hsock _) hlink
  apply not_counted_of_lt _ hnew
  have hle := links_le_of_hashed (inBind_congr id hlist) hhash
  show t.links id < tsk.refCnt + 1
  have hsame : (s.modify id fun tsk => { tsk with backlog, state := .listen }).links id = s.links id := rfl
  omega

theorem breaks_connect (h : Inv s) {addr : SockAddr}
    (hbad : ¬ (¬ s.InBind id ∧ (s.Hashed id → s.Taken id addr)))
    (hrun : s.sockConnect id addr = some t) : ¬ Counted t := by
  obtain ⟨tsk, bound, hsock, -, hlist, hfreed, hsocks, hrest⟩ := sockConnect_cases hrun
  have hrefs := (h.live id tsk hsock).refs
  have hbound := sock_of_mem (hfreed ▸ (sock_cases hsock).1) hsocks
  have hnew := sock_modify hbound connecting
  have hcount : (connecting (Host.recount (· + 1) (tsk.setAddr addr))).refCnt = tsk.refCnt + 1 :=
    (connecting_placed _).refCnt
  obtain ⟨htaken, rfl⟩ | ⟨hfree, u, hlink⟩ := hrest
  · -- Not entered: then it had been bound before, and is counted for it twice.
    have hbind : s.InBind id := by
      by_contra hbind
      exact hbad ⟨hbind, fun _ => htaken⟩
    apply not_counted_of_lt _ hnew
    have hle : (bound.modify id connecting).links id ≤ s.links id :=
      links_le_of_bound (hashed_congr id hlist) hbind
    omega
  · have hone : 1 ≤ s.links id := by
      apply one_le_links
      by_contra hnone
      obtain ⟨hbind, hhash⟩ := not_or.mp hnone
      exact hbad ⟨hbind, fun hon => absurd hon hhash⟩
    obtain ⟨hlinked, -⟩ := linkHash_sock hnew hlink
    apply not_counted_of_lt _ hlinked
    have hle := links_le t id
    show t.links id < (connecting (Host.recount (· + 1) (tsk.setAddr addr))).refCnt + 1
    omega

/-- A socket that a lookup finds is in a lookup table. -/
theorem hashed_of_lookup (h : Inv s) {cb : TcpCb} (hlookup : s.sockLookup cb = some (some id)) :
    s.Hashed id := by
  unfold sockLookup at hlookup
  split at hlookup
  · cases hlookup
  · rename_i hfound
    cases hlookup
    exact ⟨_, (h.hash.find hfound).1⟩
  · exact ⟨_, (h.hash.find hlookup).1⟩

/-- A child starts from its listener's counter. -/
theorem breaks_addChild (h : Inv s) {child : TcpSock} (hstate : child.state = .synRecv)
    (hrefs : 1 ≤ child.refCnt) (hid : id < s.socks.length) (hrun : s.addChild id child = some t) :
    ¬ Counted t := by
  have hoff : ¬ s.InBind s.socks.length ∧ ¬ s.Hashed s.socks.length :=
    ⟨fun hb => Nat.lt_irrefl _ (h.named _ (.inl hb)).1, fun hh => Nat.lt_irrefl _ (h.named _ (.inr hh)).1⟩
  have hlive : s.socks.length ∉ s.freed := fun hmem => Nat.lt_irrefl _ (h.freed _ hmem)
  -- The copies of the listener's nodes are on no list.
  have hlinkedBind := (h.bind.congr (Function.update s.bindHashList (.entry s.socks.length)
    (s.bindHashList (.entry id))) fun n hn => by
      refine Function.update_of_ne ?_ _ _
      intro heq
      obtain rfl := heq
      exact hoff.1 (hn _ rfl)).2
  have hlinkedHash := (h.hash.congr (Function.update s.hashList (.entry s.socks.length)
    (s.hashList (.entry id))) fun n hn => by
      refine Function.update_of_ne ?_ _ _
      intro heq
      obtain rfl := heq
      exact hoff.2 (hn _ rfl)).2
  unfold addChild at hrun
  dsimp only at hrun
  generalize hcopy : Stack.modify _ id _ = copy at hrun
  have hbind : ¬ copy.InBind s.socks.length := by
    subst hcopy
    exact fun hyp => hoff.1 ((exists_congr fun u => hlinkedBind u _).mp hyp)
  have hhash : ¬ copy.Hashed s.socks.length := by
    subst hcopy
    exact fun hyp => hoff.2 ((exists_congr fun u => hlinkedHash u _).mp hyp)
  have hsock : copy.sock s.socks.length = some child := by
    subst hcopy
    rw [sock_modify_ne (Nat.ne_of_gt hid)]
    exact sock_of_mem hlive (by simp)
  obtain ⟨-, rfl⟩ | ⟨-, hlink⟩ := hash_cases (sock_cases hsock).2.1 (by simp [hstate]) (by simp [hstate]) hrun
  · apply not_counted_of_lt _ hsock
    classical
    rw [links_eq, if_neg hbind, if_neg hhash]
    omega
  · obtain ⟨hnew, hlist⟩ := linkHash_sock hsock hlink
    apply not_counted_of_lt _ hnew
    classical
    rw [links_eq, if_neg (by rwa [inBind_congr _ hlist])]
    show _ < child.refCnt + 1
    split <;> omega

theorem breaks_packet (h : Inv s) {now : Int} {iss : U32} {sleeps : List (List Nat)} {packet : Packet}
    (hbad : ¬ Fits s (.packet now iss sleeps packet))
    (hrun : s.handlePacket now iss sleeps packet = some t) : ¬ Counted t := by
  obtain ⟨id, tsk, parent, outcome, hhandler, hout, hcommit⟩ := handlePacket_cases hrun
  obtain ⟨hsock, hlookup, -⟩ := handler_sock hhandler
  have hheld := h.live id tsk hsock
  have hlt := (sock_cases hsock).2.2
  have hbad : tsk.state = .listen ∧ hasFlag packet.flags tcpSyn = true ∧ hasFlag packet.flags tcpRst ≠ true := by
    by_contra hfits
    refine hbad fun id' tsk' parent' hhandler' hstate hsyn => ?_
    cases hhandler.symm.trans hhandler'
    by_contra hrst
    exact hfits ⟨hstate, hsyn, hrst⟩
  obtain ⟨hstate, hsyn, hrst⟩ := hbad
  have hsyn : hasFlag (tcpCbInit packet).flags tcpSyn = true := hsyn
  have hrst : ¬ hasFlag (tcpCbInit packet).flags tcpRst = true := hrst
  simp only [tcpProcess, if_neg hrst, hstate, TcpSock.processListen, if_pos hsyn] at hout
  cases hout
  have hone : 1 ≤ tsk.refCnt := by
    rw [hheld.refs]
    exact one_le_links (.inr (hashed_of_lookup h hlookup))
  unfold commit at hcommit
  simp only [TcpSock.only, Bool.false_eq_true, if_false] at hcommit
  have hinv : Inv (s.modify id fun _ => { tsk with state := .synRecv }) :=
    h.modify hsock (hheld.update rfl (by simp [hstate]) rfl rfl)
  refine breaks_addChild hinv ?_ ?_ ?_ hcommit
  · exact (TcpSock.setRetransTimer_control_fields _ _).1
  · have hplaced := (TcpSock.control_placed _ (tcpAck ||| tcpSyn)).after (TcpSock.setRetransTimer_placed
      (TcpSock.allocChildTcpSock { tsk with state := .synRecv } id iss (tcpCbInit packet)))
    rw [hplaced.refCnt]
    exact hone
  · rw [Stack.modify, List.length_modify]
    exact hlt

/-- `tcp_bind_unhash` drops one of the two references of a socket that is in a lookup table
too, and leaves it there. -/
theorem breaks_bindUnhash (hsock : s.sock id = some tsk) (hrefs : tsk.refCnt = s.links id)
    (hstate : tsk.state = .closed) (hhash : s.Hashed id)
    (hnode : s.InBind id ∨ (s.bindHashList (.entry id)).next = none) (hrun : s.bindUnhash id = some t) :
    ¬ Counted t := by
  classical
  obtain ⟨hlive, hsocks, -⟩ := sock_cases hsock
  obtain ⟨b, bindHashList, hb, -, rfl⟩ := bindUnhash_cases hnode hrun
  have hbound : s.InBind id := ⟨b, hb⟩
  have hcount := links_eq s id
  rw [if_pos hbound, if_pos hhash] at hcount
  have hsocks' : ({ s with bindHashList } : Stack).socks[id]? = some tsk := hsocks
  rw [freeTcpSock_eq hsocks', if_neg (by omega)]
  intro hcounted
  refine not_hashed_iff.mpr (hcounted.closed id (Host.recount (· - 1) tsk) ?_ hstate) hhash
  exact sock_of_mem hlive (socks_modify hsocks' _)

theorem breaks_retransTimer (h : Inv s) (hbad : ¬ Fits s (.retransTimer id))
    (hrun : s.scanRetransTimer id = some t) : ¬ Counted t := by
  obtain ⟨tsk, hsock, hcases⟩ := scanRetransTimer_cases h hrun
  have hheld := h.live id tsk hsock
  obtain ⟨hplaced, hgives, -⟩ := tsk.scanRetransTimer_placed
  have hbad : tsk.GivesUp ∧ s.Hashed id := by
    by_contra hfits
    refine hbad fun tsk' hsock' hgive hhash => ?_
    cases hsock.symm.trans hsock'
    exact hfits ⟨hgive, hhash⟩
  obtain ⟨-, hunhash⟩ | ⟨hkeeps, -⟩ := hcases
  · exact breaks_bindUnhash (sock_modify hsock _) (hplaced.refCnt.trans hheld.refs) (hgives hbad.1) hbad.2
      hheld.bindNode hunhash
  · exact absurd hbad.1 hkeeps

theorem breaks_timewaitTimer (h : Inv s) {now : Int} (hbad : ¬ Fits s (.timewaitTimer id now))
    (hrun : s.scanTimer id now = some t) : ¬ Counted t := by
  obtain ⟨tsk, hsock, hcases⟩ := scanTimer_cases hrun
  have hheld := h.live id tsk hsock
  have hbad : Expired tsk now ∧ s.Hashed id := by
    by_contra hfits
    refine hbad fun tsk' hsock' hdue hhash => ?_
    cases hsock.symm.trans hsock'
    exact hfits ⟨hdue, hhash⟩
  obtain ⟨-, hunhash⟩ | ⟨hearly, -⟩ := hcases
  · exact breaks_bindUnhash (sock_modify hsock _) hheld.refs rfl hbad.2 hheld.bindNode hunhash
  · exact absurd hbad.1 hearly

/-- **One call that does not fit breaks what the counter is for.** -/
theorem breaks_step (s : Stack) (e : Event) (h : Inv s) (hbad : ¬ Balanced s e) :
    ∃ t, Step s e t ∧ ¬ Counted t := by
  obtain ⟨⟨t, hstep⟩, hbad⟩ := Classical.not_imp.mp hbad
  refine ⟨t, hstep, ?_⟩
  cases e with
  | bind id port => exact breaks_bind h (not_not.mp hbad) hstep
  | listen id backlog => exact breaks_listen h (not_not.mp hbad) hstep
  | connect id addr => exact breaks_connect h hbad hstep
  | packet now iss sleeps packet => exact breaks_packet h hbad hstep
  | retransTimer id => exact breaks_retransTimer h hbad hstep
  | timewaitTimer id now => exact breaks_timewaitTimer h hbad hstep
  | alloc | accept | close | read | write | resume => exact absurd trivial hbad

end

/-- **The counter counts the tables**, a socket is released once it is in none, and a
closed one is in neither lookup table, in every state of a run exactly when every call of
it that returns fits. -/
theorem counted_iff (events : List Event) :
    Throughout Step Counted empty events ↔ Along Step Balanced empty events :=
  throughout_iff_along (fun _ => Inv.counted) inv_step breaks_step inv_empty events

/-- A server binds, listens and gets a SYN: the child has one link and counts three. -/
theorem child_counts_three : ¬ Throughout Step Counted empty
    [.alloc, .bind 0 80, .listen 0 5, .packet 0 1000 [] ⟨1, 2, 40000, 80, 7, 0, tcpSyn, 65535, []⟩] := by
  intro h
  have hcounted := (((h.2 _ rfl).2 _ rfl).2 _ rfl).2 _ rfl
  exact not_counted_of_lt 1 rfl (Int.lt_of_le_of_lt (links_le _ _) (by decide)) hcounted

end NetStack.Tcp.Stack
