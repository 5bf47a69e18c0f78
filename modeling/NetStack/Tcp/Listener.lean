import NetStack.Lib.Run
import NetStack.Tcp.Bookkeeping

/-! What a listening socket goes through (`tcp_process` in state `TCP_LISTEN`).

From `tcp_sock_listen` on the host takes packets, from whomever, and the application
calls `tcp_sock_accept`. The first SYN is served: it gets its child and its SYN and ACK
(`syn_served`). But the branch sets the state of the listener where it means the child's,
so with that packet the socket stops listening; and a reset closes it, whatever it was
meant for. It listens on, and serves every SYN that comes, as long as neither reaches it
(`listens_iff`). -/
namespace NetStack.Tcp

/-- A packet for the host, with what the call needs from outside; or an accept call. -/
inductive ListenEvent
  | packet (now : Int) (iss : U32) (sleeps : List (List Nat)) (packet : Packet)
  | accept (id : Nat)

namespace Host

/-! ### The state and the address of a socket, by its index -/

/-- What lookups and the state machine go by. -/
def profile (h : Host) (i : Nat) : Option (TcpState × SockAddr) :=
  (h.socks[i]?).map fun tsk => (tsk.state, tsk.addr)

theorem profile_of_sock {h : Host} {i : Nat} {tsk : TcpSock} (hi : h.socks[i]? = some tsk) :
    h.profile i = some (tsk.state, tsk.addr) := by
  rw [profile, hi]
  rfl

theorem profile_modify_ne (h : Host) {i id : Nat} (hne : i ≠ id) (f : TcpSock → TcpSock) :
    (h.modify id f).profile i = h.profile i := by
  rw [profile, modify, List.getElem?_modify_ne f h.socks (Ne.symm hne)]
  rfl

theorem profile_modify (h : Host) (i id : Nat) {f : TcpSock → TcpSock}
    (hf : ∀ tsk, (f tsk).state = tsk.state ∧ (f tsk).addr = tsk.addr) :
    (h.modify id f).profile i = h.profile i := by
  by_cases hi : i = id
  · subst hi
    unfold profile modify
    rw [List.getElem?_modify_eq]
    cases h.socks[i]? with
    | none => rfl
    | some tsk => exact congrArg some (Prod.ext (hf tsk).1 (hf tsk).2)
  · exact h.profile_modify_ne hi f

theorem profile_modify_eq {h : Host} {id : Nat} {tsk : TcpSock} (hid : h.socks[id]? = some tsk)
    (f : TcpSock → TcpSock) : (h.modify id f).profile id = some ((f tsk).state, (f tsk).addr) := by
  rw [profile, modify, List.getElem?_modify_eq, hid]
  rfl

theorem profile_of_recount {h h' : Host} {id : Nat}
    (hsocks : ∃ f, h'.socks = h.socks.modify id (recount f)) (i : Nat) : h'.profile i = h.profile i := by
  obtain ⟨f, hf⟩ := hsocks
  have hsame := h.profile_modify i id (f := recount f) (fun _ => ⟨rfl, rfl⟩)
  rw [← hsame, profile, profile, hf]
  rfl

theorem profile_acceptEnqueue (h : Host) (id i : Nat) : (h.acceptEnqueue id).profile i = h.profile i := by
  unfold acceptEnqueue
  split
  · rfl
  · exact h.profile_modify i _ fun _ => ⟨rfl, rfl⟩

theorem profile_addChild (h : Host) (parent : Nat) (child : TcpSock) {i : Nat}
    (hi : i < h.socks.length) : (h.addChild parent child).profile i = h.profile i := by
  unfold addChild
  rw [profile_of_recount (hash_socks _ _)]
  refine Eq.trans (profile_modify _ i parent ?_) ?_
  · exact fun _ => ⟨rfl, rfl⟩
  · simp only [profile, List.getElem?_append_left hi]

theorem profile_addChild_new (h : Host) (child : TcpSock) {parent : Nat} (hparent : parent < h.socks.length) :
    (h.addChild parent child).profile h.socks.length = some (child.state, child.addr) := by
  unfold addChild
  rw [profile_of_recount (hash_socks _ _), profile_modify_ne _ (Nat.ne_of_gt hparent)]
  simp [profile]

/-- Of the sockets there were, a call gives only its own a new state. -/
theorem profile_commit (h : Host) (id : Nat) (outcome : Outcome) {i : Nat} (hi : i < h.socks.length) :
    (h.commit id outcome).profile i = (h.modify id fun _ => outcome.tsk).profile i := by
  unfold commit
  have hunhash : ∀ g : Host, (if outcome.unhash then g.unhash id else g).profile i = g.profile i := by
    intro g
    split
    · exact profile_of_recount (unhash_socks g id) i
    · rfl
  have henqueue : ∀ g : Host, (if outcome.acceptEnqueue then g.acceptEnqueue id else g).profile i =
      g.profile i := by
    intro g
    split
    · exact g.profile_acceptEnqueue id i
    · rfl
  rw [hunhash, henqueue]
  split
  · rfl
  · exact profile_addChild _ id _ (by simpa [modify] using hi)

theorem modify_length (h : Host) (id : Nat) (f : TcpSock → TcpSock) :
    (h.modify id f).socks.length = h.socks.length := List.length_modify ..

theorem length_of_recount {h h' : Host} {id : Nat}
    (hsocks : ∃ f, h'.socks = h.socks.modify id (recount f)) : h'.socks.length = h.socks.length := by
  obtain ⟨f, hf⟩ := hsocks
  rw [hf, List.length_modify]

theorem addChild_length (h : Host) (parent : Nat) (child : TcpSock) :
    (h.addChild parent child).socks.length = h.socks.length + 1 := by
  unfold addChild
  rw [length_of_recount (hash_socks _ _), modify_length, List.length_append]
  rfl

/-- What a call adds to the sockets is its child. -/
theorem commit_length (h : Host) (id : Nat) (outcome : Outcome) :
    (h.commit id outcome).socks.length = h.socks.length + outcome.child.toList.length := by
  unfold commit
  have hunhash : ∀ g : Host, (if outcome.unhash then g.unhash id else g).socks.length =
      g.socks.length := by
    intro g
    split
    · exact length_of_recount (unhash_socks g id)
    · rfl
  have henqueue : ∀ g : Host, (if outcome.acceptEnqueue then g.acceptEnqueue id else g).socks.length =
      g.socks.length := by
    intro g
    split
    · unfold acceptEnqueue
      split
      · rfl
      · exact g.modify_length _ _
    · rfl
  rw [hunhash, henqueue]
  split
  · rename_i hchild
    rw [modify_length, hchild]
    rfl
  · rename_i child hchild
    rw [addChild_length, modify_length, hchild]
    rfl

/-! ### The listen table -/

theorem freeTcpSock_listening (h : Host) (id : Nat) : (h.freeTcpSock id).listening = h.listening := by
  unfold freeTcpSock modify
  dsimp only
  split
  · rfl
  · split <;> rfl

theorem unhash_listening (h : Host) (id : Nat) :
    (h.unhash id).listening = h.listening ∨ (h.unhash id).listening = h.listening.erase id := by
  unfold unhash
  split
  · exact .inr (freeTcpSock_listening _ id)
  · exact .inl rfl

/-- A new child is not entered in the listen table. -/
theorem addChild_listening (h : Host) (parent : Nat) {child : TcpSock} (hstate : child.state = .synRecv)
    (hparent : parent < h.socks.length) : (h.addChild parent child).listening = h.listening := by
  unfold addChild hash
  have hchild : ((h.socks ++ [child]).modify parent fun tsk =>
      { tsk with listenQueue := tsk.listenQueue ++ [h.socks.length] })[h.socks.length]? = some child := by
    rw [List.getElem?_modify_ne _ _ (Nat.ne_of_lt hparent)]
    simp
  simp only [modify, hchild, hstate]
  split <;> rfl

theorem acceptEnqueue_listening (h : Host) (id : Nat) : (h.acceptEnqueue id).listening = h.listening := by
  unfold acceptEnqueue
  split <;> rfl

theorem commit_listening {h : Host} {id : Nat} {outcome : Outcome} (hid : id < h.socks.length)
    (hchild : ∀ child, outcome.child = some child → child.state = .synRecv) :
    (h.commit id outcome).listening = h.listening ∨
      (h.commit id outcome).listening = h.listening.erase id := by
  unfold commit
  have henqueue : ∀ g : Host, g.listening = h.listening →
      (if outcome.acceptEnqueue then g.acceptEnqueue id else g).listening = h.listening := by
    intro g hg
    split
    · rw [acceptEnqueue_listening, hg]
    · exact hg
  have hunhash : ∀ g : Host, g.listening = h.listening →
      (if outcome.unhash then g.unhash id else g).listening = h.listening ∨
        (if outcome.unhash then g.unhash id else g).listening = h.listening.erase id := by
    intro g hg
    split
    · rw [← hg]
      exact unhash_listening g id
    · exact .inl hg
  cases hout : outcome.child with
  | none => exact hunhash _ (henqueue _ rfl)
  | some child =>
    refine hunhash _ (henqueue _ (addChild_listening _ id (hchild child hout) ?_))
    simpa [modify] using hid

end Host

/-- What a SYN gets in state `TCP_LISTEN`: a child for its 4-tuple and a SYN and ACK. -/
theorem processListen_syn (self : Nat) (iss : U32) (tsk : TcpSock) {cb : TcpCb}
    (hsyn : hasFlag cb.flags tcpSyn = true) :
    ∃ child reply, tsk.processListen self iss cb =
        { TcpSock.only ({ tsk with state := .synRecv }, [reply]) with child := some child } ∧
      child.state = .synRecv ∧ child.addr = ⟨cb.daddr, cb.dport, cb.saddr, cb.sport⟩ ∧
      reply.flags = tcpAck ||| tcpSyn := by
  unfold TcpSock.processListen
  rw [if_pos hsyn]
  refine ⟨_, _, rfl, ?_, ?_, rfl⟩
  · exact (TcpSock.setRetransTimer_control_fields _ _).1
  · exact ((TcpSock.control_placed _ _).after (TcpSock.setRetransTimer_placed _)).addr

theorem tcpProcess_child_state {now : Int} {self : Nat} {iss : U32} {parent : Option TcpSock}
    {sleeps : List (List Nat)} {tsk child : TcpSock} {cb : TcpCb} {outcome : Outcome}
    (h : tcpProcess now self iss parent sleeps tsk cb = some outcome)
    (hchild : outcome.child = some child) : child.state = .synRecv := by
  by_cases hstate : tsk.state = .listen
  · unfold tcpProcess at h
    simp only [hstate] at h
    split at h
    · cases h
      simp [TcpSock.sockClose, hstate, TcpSock.only] at hchild
    · cases h
      by_cases hsyn : hasFlag cb.flags tcpSyn = true
      · obtain ⟨c, reply, heq, hc, -⟩ := processListen_syn self iss tsk hsyn
        rw [heq] at hchild
        cases hchild
        exact hc
      · simp [TcpSock.processListen, hsyn, TcpSock.only] at hchild
  · rw [tcpProcess_child hstate h] at hchild
    cases hchild

namespace Host

def step (h : Host) : ListenEvent → Option Host
  | .packet now iss sleeps packet =>
    (h.handlePacket now iss sleeps packet).map fun result => result.2.2
  | .accept id => (h.sockAccept id).map Prod.snd

def Step (h : Host) (e : ListenEvent) (t : Host) : Prop := h.step e = some t

def Listening (l : Nat) (h : Host) : Prop := (h.socks[l]?).map TcpSock.state = some .listen

instance (l : Nat) (h : Host) : Decidable (Listening l h) := inferInstanceAs (Decidable (_ = _))

/-- A SYN for the port of socket `l` from a 4-tuple that is not in the established table. -/
def Calls (l : Nat) (h : Host) (packet : Packet) : Prop :=
  hasFlag packet.flags tcpSyn = true ∧ hasFlag packet.flags tcpRst = false ∧
    h.lookupEstablished ⟨packet.daddr, packet.dport, packet.saddr, packet.sport⟩ = none ∧
    (h.socks[l]?).map TcpSock.skSport = some packet.dport

/-- The packet gets exactly one child, in `TCP_SYN_RECV` and for its 4-tuple, and exactly
one packet, a SYN and ACK. -/
def Served (h : Host) (now : Int) (iss : U32) (sleeps : List (List Nat)) (packet : Packet) : Prop :=
  ∃ (reply : Packet) (taken : List U8) (t : Host),
    h.handlePacket now iss sleeps packet = some ([reply], taken, t) ∧
      reply.flags = tcpAck ||| tcpSyn ∧ t.socks.length = h.socks.length + 1 ∧
      t.profile h.socks.length =
        some (.synRecv, ⟨packet.daddr, packet.dport, packet.saddr, packet.sport⟩)

/-- Socket `l` listens on, and where the event is a SYN for it, the SYN is served. -/
def Listens (l : Nat) (h : Host) (e : ListenEvent) : Prop :=
  (∀ t, Step h e t → Listening l t) ∧
    match e with
    | .packet now iss sleeps packet => Calls l h packet → Served h now iss sleeps packet
    | .accept _ => True

/-- No SYN and no reset is given to socket `l`, and no accept call returns it. -/
def Spares (l : Nat) (h : Host) : ListenEvent → Prop
  | .packet _ _ _ packet => h.sockLookup (tcpCbInit packet) = some l →
      hasFlag packet.flags tcpSyn = false ∧ hasFlag packet.flags tcpRst = false
  | .accept id => ((h.socks[id]?).bind fun tsk => tsk.acceptQueue.head?) ≠ some l

instance (l : Nat) (h : Host) : (e : ListenEvent) → Decidable (Spares l h e)
  | .packet _ _ _ _ => inferInstanceAs (Decidable (_ → _ ∧ _))
  | .accept _ => inferInstanceAs (Decidable (_ ≠ _))

/-! ### What the packets and accept calls do to the listener -/

/-- Socket `l` is in state `TCP_LISTEN`, and first in the listen table. -/
structure Ready (l : Nat) (h : Host) : Prop where
  place : ∃ addr, h.profile l = some (.listen, addr)
  first : ∃ rest, h.listening = l :: rest

variable {l : Nat} {h t : Host}

theorem listening_iff : Listening l h ↔ ∃ addr, h.profile l = some (.listen, addr) := by
  unfold Listening profile
  cases h.socks[l]? with
  | none => simp
  | some tsk => simp

theorem profile_lt {i : Nat} {p : TcpState × SockAddr} (hprofile : h.profile i = some p) :
    i < h.socks.length := by
  by_contra hge
  rw [profile, List.getElem?_eq_none (by omega)] at hprofile
  cases hprofile

/-- A call that leaves its socket as it was leaves the host so. -/
theorem commit_idle {id : Nat} {tsk : TcpSock} (htsk : h.socks[id]? = some tsk) :
    h.commit id (TcpSock.only (tsk, [])) = h := by
  have hsocks : (h.socks.modify id fun _ => tsk) = h.socks := by
    apply List.ext_getElem?
    intro i
    by_cases hi : i = id
    · subst hi
      rw [List.getElem?_modify_eq, htsk]
      rfl
    · rw [List.getElem?_modify_ne _ _ (Ne.symm hi)]
  unfold commit modify
  simp only [TcpSock.only, hsocks]
  rfl

/-- A call on another socket leaves the listener alone. -/
theorem Ready.commit (hready : Ready l h) {id : Nat} {outcome : Outcome} (hid : id < h.socks.length)
    (hchild : ∀ child, outcome.child = some child → child.state = .synRecv) (hne : id ≠ l) :
    Ready l (h.commit id outcome) := by
  obtain ⟨addr, hprofile⟩ := hready.place
  obtain ⟨rest, hfirst⟩ := hready.first
  refine ⟨⟨addr, ?_⟩, ?_⟩
  · rw [profile_commit h id outcome (profile_lt hprofile), h.profile_modify_ne (Ne.symm hne), hprofile]
  · obtain heq | heq := commit_listening hid hchild
    · exact ⟨rest, heq.trans hfirst⟩
    · rw [heq, hfirst, List.erase_cons_tail (by simpa using Ne.symm hne)]
      exact ⟨rest.erase id, rfl⟩

/-- A packet that is no SYN and no reset means nothing to a listener. -/
theorem tcpProcess_spared {now : Int} {self : Nat} {iss : U32} {parent : Option TcpSock}
    {sleeps : List (List Nat)} {tsk : TcpSock} {cb : TcpCb} (hstate : tsk.state = .listen)
    (hsyn : hasFlag cb.flags tcpSyn = false) (hrst : hasFlag cb.flags tcpRst = false) :
    tcpProcess now self iss parent sleeps tsk cb = some (TcpSock.only (tsk, [])) := by
  simp [tcpProcess, TcpSock.processListen, hstate, hsyn, hrst]

theorem Ready.packet (hready : Ready l h) {now : Int} {iss : U32} {sleeps : List (List Nat)}
    {packet : Packet} (hspare : Spares l h (.packet now iss sleeps packet))
    (hstep : Step h (.packet now iss sleeps packet) t) : Ready l t := by
  obtain ⟨addr, hprofile⟩ := hready.place
  obtain ⟨⟨sent, taken, t'⟩, hrun, heq⟩ := Option.map_eq_some_iff.mp hstep
  obtain rfl : t' = t := heq
  obtain ⟨id, tsk, outcome, hid, htsk, hout, -, -, rfl⟩ := handlePacket_cases hrun
  by_cases hne : id = l
  · subst hne
    obtain ⟨hsyn, hrst⟩ := hspare hid
    rw [profile_of_sock htsk] at hprofile
    have hstate : tsk.state = .listen := (Prod.mk.inj (Option.some.inj hprofile)).1
    have hidle := (tcpProcess_spared hstate hsyn hrst).symm.trans hout
    rw [← Option.some.inj hidle, commit_idle htsk]
    exact hready
  · have hlt : id < h.socks.length := (List.getElem?_eq_some_iff.mp htsk).1
    exact hready.commit hlt (fun child => tcpProcess_child_state hout) hne

theorem sockAccept_cases {id child : Nat} (hrun : h.sockAccept id = some (child, t)) :
    (h.socks[id]?).bind (fun tsk => tsk.acceptQueue.head?) = some child ∧ t.listening = h.listening ∧
      (∀ i, i ≠ child → t.profile i = h.profile i) ∧
      ∀ addr state, h.profile child = some (state, addr) → t.profile child = some (.established, addr) := by
  unfold sockAccept at hrun
  split at hrun
  · cases hrun
  · rename_i tsk htsk
    split at hrun
    · cases hrun
    · rename_i c rest hqueue
      cases hrun
      have hpop : ∀ i, (h.modify id fun tsk =>
          { tsk with acceptQueue := rest, acceptBacklog := tsk.acceptBacklog - 1 }).profile i =
            h.profile i := fun i => h.profile_modify i id fun _ => ⟨rfl, rfl⟩
      refine ⟨by rw [htsk, Option.bind_some, hqueue, List.head?_cons], rfl, ?_, ?_⟩
      · intro i hi
        rw [profile_modify_ne _ hi, hpop]
      · intro addr state hprofile
        rw [← hpop child] at hprofile
        obtain ⟨c, hc, heq⟩ := Option.map_eq_some_iff.mp hprofile
        rw [profile_modify_eq hc, ← (Prod.mk.inj heq).2]
        rfl

theorem Ready.accept (hready : Ready l h) {id : Nat} (hspare : Spares l h (.accept id))
    (hstep : Step h (.accept id) t) : Ready l t := by
  obtain ⟨addr, hprofile⟩ := hready.place
  obtain ⟨⟨child, t'⟩, hrun, heq⟩ := Option.map_eq_some_iff.mp hstep
  obtain rfl : t' = t := heq
  obtain ⟨hhead, hlist, hother, -⟩ := sockAccept_cases hrun
  have hne : l ≠ child := by
    intro hsame
    obtain rfl := hsame
    exact hspare hhead
  exact ⟨⟨addr, (hother l hne).trans hprofile⟩, by rw [hlist]; exact hready.first⟩

theorem Ready.step (hready : Ready l h) {e : ListenEvent} (hspare : Spares l h e) (hstep : Step h e t) :
    Ready l t := by
  cases e with
  | packet now iss sleeps packet => exact hready.packet hspare hstep
  | accept id => exact hready.accept hspare hstep

theorem Ready.listening (hready : Ready l h) : Listening l h := by
  obtain ⟨addr, hprofile⟩ := hready.place
  exact listening_iff.mpr ⟨addr, hprofile⟩

/-- A SYN for the listener's port comes to the listener. -/
theorem Ready.lookup (hready : Ready l h) {packet : Packet} (hcalls : Calls l h packet) :
    h.sockLookup (tcpCbInit packet) = some l := by
  obtain ⟨-, -, hnone, hport⟩ := hcalls
  obtain ⟨rest, hfirst⟩ := hready.first
  obtain ⟨tsk, htsk, hsport⟩ := Option.map_eq_some_iff.mp hport
  have hnone : h.lookupEstablished ⟨(tcpCbInit packet).daddr, (tcpCbInit packet).dport,
      (tcpCbInit packet).saddr, (tcpCbInit packet).sport⟩ = none := hnone
  unfold sockLookup lookupListen
  rw [hnone, hfirst]
  simp [htsk, hsport, tcpCbInit]

/-- **A SYN that finds the socket listening is served.** -/
theorem syn_served (hready : Ready l h) (now : Int) (iss : U32) (sleeps : List (List Nat))
    {packet : Packet} (hcalls : Calls l h packet) : Served h now iss sleeps packet := by
  obtain ⟨addr, hprofile⟩ := hready.place
  have hlookup := hready.lookup hcalls
  obtain ⟨hsyn, hrst, -, -⟩ := hcalls
  obtain ⟨tsk, htsk, heq⟩ := Option.map_eq_some_iff.mp hprofile
  have hstate : tsk.state = .listen := (Prod.mk.inj heq).1
  have hsyn : hasFlag (tcpCbInit packet).flags tcpSyn = true := hsyn
  obtain ⟨child, reply, hlisten, hchild, hplace, hflags⟩ :=
    processListen_syn l iss tsk hsyn
  let outcome : Outcome :=
    { TcpSock.only ({ tsk with state := .synRecv }, [reply]) with child := some child }
  have hout : tcpProcess now l iss (tsk.parent.bind fun p => h.socks[p]?) sleeps tsk (tcpCbInit packet) =
      some outcome := by
    have hlisten : tsk.processListen l iss (tcpCbInit packet) = outcome := hlisten
    have hrst : hasFlag (tcpCbInit packet).flags tcpRst = false := hrst
    simp [tcpProcess, hrst, hstate, hlisten]
  refine ⟨reply, [], h.commit l outcome, ?_, hflags, commit_length h l outcome, ?_⟩
  · unfold handlePacket
    simp only [hlookup, htsk, hout]
    rfl
  · have hnew := profile_addChild_new (h.modify l fun _ => outcome.tsk) child
      (by rw [modify_length]; exact profile_lt hprofile)
    rw [modify_length, hchild, hplace] at hnew
    exact hnew

/-- A SYN or a reset that comes to the listener takes it out of `TCP_LISTEN`. -/
theorem not_listening_of_hit (hready : Ready l h) {now : Int} {iss : U32} {sleeps : List (List Nat)}
    {packet : Packet} (hlookup : h.sockLookup (tcpCbInit packet) = some l)
    (hhit : hasFlag packet.flags tcpSyn = true ∨ hasFlag packet.flags tcpRst = true) :
    ∃ t, Step h (.packet now iss sleeps packet) t ∧ ¬ Listening l t := by
  obtain ⟨addr, hprofile⟩ := hready.place
  have hlt := profile_lt hprofile
  obtain ⟨tsk, htsk, heq⟩ := Option.map_eq_some_iff.mp hprofile
  have hstate : tsk.state = .listen := (Prod.mk.inj heq).1
  have hout : ∃ outcome, tcpProcess now l iss (tsk.parent.bind fun p => h.socks[p]?) sleeps tsk
      (tcpCbInit packet) = some outcome ∧ outcome.tsk.state ≠ .listen := by
    by_cases hrst : hasFlag (tcpCbInit packet).flags tcpRst = true
    · refine ⟨tsk.sockClose, by simp [tcpProcess, hrst], ?_⟩
      simp [TcpSock.sockClose, hstate, TcpSock.only]
    · have hsyn : hasFlag (tcpCbInit packet).flags tcpSyn = true := hhit.resolve_right hrst
      refine ⟨tsk.processListen l iss (tcpCbInit packet), by simp [tcpProcess, hrst, hstate], ?_⟩
      simp [TcpSock.processListen, hsyn, TcpSock.only]
  obtain ⟨outcome, hout, hleft⟩ := hout
  refine ⟨h.commit l outcome, ?_, ?_⟩
  · simp [Step, step, handlePacket, hlookup, htsk, hout]
  · intro hlistening
    obtain ⟨addr', hcommit⟩ := listening_iff.mp hlistening
    rw [profile_commit h l outcome hlt, profile_modify_eq htsk] at hcommit
    exact hleft (Prod.mk.inj (Option.some.inj hcommit)).1

theorem listens_step_iff (h : Host) (e : ListenEvent) (hready : Ready l h) : Listens l h e ↔ Spares l h e := by
  cases e with
  | packet now iss sleeps packet =>
    constructor
    · intro hyp hlookup
      obtain ⟨hlistens, -⟩ := hyp
      by_contra hhit
      have hhit : hasFlag packet.flags tcpSyn = true ∨ hasFlag packet.flags tcpRst = true := by
        cases hsyn : hasFlag packet.flags tcpSyn <;> cases hrst : hasFlag packet.flags tcpRst <;>
          simp_all
      obtain ⟨t, hstep, hnot⟩ := not_listening_of_hit hready hlookup hhit
      exact hnot (hlistens t hstep)
    · intro hspare
      exact ⟨fun t hstep => (hready.packet hspare hstep).listening,
        fun hcalls => syn_served hready now iss sleeps hcalls⟩
  | accept id =>
    constructor
    · intro hyp hhead
      obtain ⟨hlistens, -⟩ := hyp
      obtain ⟨tsk, htsk, hqueue⟩ := Option.bind_eq_some_iff.mp hhead
      obtain ⟨rest, hcons⟩ := List.head?_eq_some_iff.mp hqueue
      obtain ⟨t, hrun⟩ : ∃ t, h.sockAccept id = some (l, t) := by
        unfold sockAccept
        simp only [htsk, hcons]
        exact ⟨_, rfl⟩
      obtain ⟨-, -, -, hnew⟩ := sockAccept_cases hrun
      obtain ⟨addr, hprofile⟩ := hready.place
      have hlistening := hlistens t (by simp [Step, step, hrun])
      obtain ⟨addr', hstill⟩ := listening_iff.mp hlistening
      rw [hnew addr .listen hprofile] at hstill
      cases hstill
    · intro hspare
      exact ⟨fun t hstep => (hready.accept hspare hstep).listening, trivial⟩

/-! ### From `tcp_sock_listen` on -/

/-- `tcp_sock_listen` leaves the socket listening, first in the table. -/
theorem ready_sockListen {tsk : TcpSock} (hl : h.socks[l]? = some tsk) (backlog : Int) :
    Ready l (h.sockListen l backlog) := by
  have hset : (h.modify l fun tsk => { tsk with backlog, state := .listen }).socks[l]? =
      some { tsk with backlog, state := .listen } := by
    unfold modify
    rw [List.getElem?_modify_eq, hl]
    rfl
  refine ⟨⟨tsk.addr, ?_⟩, h.listening, ?_⟩
  · unfold sockListen
    rw [profile_of_recount (hash_socks _ _)]
    exact profile_modify_eq hl _
  · unfold sockListen hash
    simp only [hset]
    rfl

/-- **A listening socket keeps listening** and serves every SYN for it, over every sequence
of packets and accept calls from `tcp_sock_listen` on, exactly when none of the packets
that come to it is a SYN or a reset, and no accept call returns it. -/
theorem listens_iff {tsk : TcpSock} (hl : h.socks[l]? = some tsk) (backlog : Int)
    (events : List ListenEvent) :
    Along Step (Listens l) (h.sockListen l backlog) events ↔
      Along Step (Spares l) (h.sockListen l backlog) events :=
  along_iff (fun _ _ _ hready hspare hstep => hready.step hspare hstep) listens_step_iff
    (ready_sockListen hl backlog) events

/-- A socket bound to port 80. -/
def boundHost : Host := { Host.empty with socks := [{ allocTcpSock with skSport := 80 }] }

/-- A stray ACK and an accept call. -/
theorem listens_on_ack : Along Step (Listens 0) (boundHost.sockListen 0 5)
    [.packet 0 0 [] ⟨1, 2, 40000, 80, 7, 9, tcpAck, 65535, []⟩, .accept 0] := by
  have hspares : checkAll step (Spares 0) (boundHost.sockListen 0 5)
      [.packet 0 0 [] ⟨1, 2, 40000, 80, 7, 9, tcpAck, 65535, []⟩, .accept 0] = true := by decide
  exact (listens_iff (l := 0) rfl 5 _).mpr (.of_checkAll hspares)

/-- The first SYN ends it. -/
theorem first_syn_ends_listening : ¬ Along Step (Listens 0) (boundHost.sockListen 0 5)
    [.packet 0 1000 [] ⟨1, 2, 40000, 80, 7, 0, tcpSyn, 65535, []⟩] := by
  intro h
  have hlistening := h.1.1 _ rfl
  exact absurd hlistening (by decide)

end Host

end NetStack.Tcp
